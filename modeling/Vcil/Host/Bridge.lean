import Vcil.Host.Port

/-!
# The memory-mapped bridge

`Bridge_Socket_Uart`: the bus target through which guest code talks to the board.  A write to one
of its first five registers sends bytes and blocks until the board has answered.

* `Bridge`: the members;
* `Bridge.sm4Write`: a register write up to its first `read()`, `Bridge.resume` one pass of the
  read loop it waits in;
* `Bridge.write`: a whole register write over the results of its `read()`s;
* `Bridge.sm4Read`: a register read.
-/

namespace Vcil.Host

/-- The members of `Bridge_Socket_Uart` that register accesses use. -/
structure Bridge where
  nread : BitVec 8
  writeBuff : Vector Byte 4
  readBuff : Vector Byte 5
  state : Word
  deriving DecidableEq, Repr

/-- The read loops a register write may wait in. -/
inductive Wait
  /-- one byte, then the state is set -/
  | ack (state : Word)
  /-- one byte, then `read_buff[0]` is tested -/
  | poll
  /-- the five bytes of a reply -/
  | reply
  deriving DecidableEq, Repr

/-- The size a loop passes to `read()`. -/
def Wait.size : Wait → ℕ
  | .ack _ => 1
  | .poll => 1
  | .reply => 5

/-- Where a register write is: the bytes it sends, and the loop it waits in then. -/
structure Progress where
  bridge : Bridge
  sends : List Byte
  wait : Option Wait
  deriving DecidableEq, Repr

namespace Bridge

/-- The members of a new object. -/
def init : Bridge := ⟨0, Vector.replicate 4 0, Vector.replicate 5 0, 0⟩

variable (br : Bridge)

/-- `write_buff[0..3]` filled with a word and sent. -/
def sendWord (data state : Word) : Progress :=
  ⟨{ br with writeBuff := wordBytes data }, (wordBytes data).toList, some (.ack state)⟩

def lowByte (data : Word) : Byte := (data &&& 0x000000ff).setWidth 8

/-- The head of the polling loop. -/
def pollTest : Progress :=
  if firstByte br.readBuff = 1 then ⟨{ br with state := 4 }, [], none⟩
  else ⟨br, [firstByte br.writeBuff], some .poll⟩

/-- `SM4_write` up to its first `read()`. -/
def sm4Write (addr data : Word) : Progress :=
  if addr = 0x00 then br.sendWord data 1
  else if addr = 0x04 then br.sendWord data 2
  else if addr = 0x08 then br.sendWord data 3
  else if addr = 0x0c then
    pollTest { br with
      readBuff := setFirstByte br.readBuff 0
      writeBuff := setFirstByte br.writeBuff (lowByte data) }
  else if addr = 0x10 then
    ⟨{ br with writeBuff := setFirstByte br.writeBuff (lowByte data) }, [lowByte data], some .reply⟩
  else ⟨br, [], none⟩

/-- One `read()` of the loop `w`, and what follows it up to the next one. -/
def resume (w : Wait) (r : ReadResult) : Progress :=
  let br : Bridge := { br with nread := Host.nread 8 r, readBuff := r.store br.readBuff }
  if 0 < br.nread then
    match w with
    | .ack state => ⟨{ br with state := state }, [], none⟩
    | .poll => br.pollTest
    | .reply => ⟨{ br with state := 5 }, [], none⟩
  else ⟨br, [], some w⟩

/-- `SM4_read`: the value at `data` afterwards. -/
def sm4Read (addr data : Word) : Word :=
  if addr = 0x18 then br.state
  else if addr = 0x14 then replyWord br.readBuff
  else data

end Bridge

/-- A register write that waits, over the results of its `read()`s. -/
def Progress.run (p : Progress) : List ReadResult → Option (Bridge × List ReadResult)
  | [] => if p.wait.isNone then some (p.bridge, []) else none
  | r :: rs =>
      match p.wait with
      | none => some (p.bridge, r :: rs)
      | some w => run (p.bridge.resume w r) rs

/-- A whole register write. -/
def Bridge.write (br : Bridge) (addr data : Word) (rs : List ReadResult) :
    Option (Bridge × List ReadResult) :=
  (br.sm4Write addr data).run rs

end Vcil.Host
