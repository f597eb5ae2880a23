import Vcil.Rtl.NiceCoreRuns

/-!
# The board behind a serial line

`nice_core` with its transmitter and a first-in first-out byte link in each direction.  The links
and the transmitter are reliable and otherwise as slow as they like; a frame lasts at least
`frame` clocks.

* `Device`: the core, the byte in the transmitter, the bytes on the way, the bytes at the host;
* `Tick`: what the links and the transmitter do in one clock; `Device.clock`: that clock;
* `Device.arrive`, `write`, `flush`, `read`: what happens at the host's end.
-/

namespace Vcil.System

open Vcil.Rtl

/-- The board and its serial line. -/
structure Device where
  core : Core
  /-- the byte being sent while `i_state_0` is high, with the clocks it has been high -/
  tx : Option (Byte × ℕ)
  /-- the bytes on the way to the core -/
  down : List Byte
  /-- the clocks the first of them has been on the line, before this one -/
  age : ℕ
  /-- the bytes on the way to the host -/
  up : List Byte
  /-- the bytes received at the host and not read yet -/
  rx : List Byte
  deriving DecidableEq, Repr

/-- What may happen in a clock, if it can: the transmitter raises or lowers `i_state_0`, the first
byte on the line is delivered to the core. -/
structure Tick where
  raise : Bool
  lower : Bool
  deliver : Bool
  deriving DecidableEq, Repr

namespace Device

def init : Device := ⟨Core.reset, none, [], 0, [], []⟩

variable (frame : ℕ) (d : Device) (t : Tick)

/-- The byte delivered to the core in this clock, in which its frame ends. -/
def delivery : Option Byte := if t.deliver ∧ frame ≤ d.age + 1 then d.down.head? else none

/-- The byte whose frame ends in this clock. -/
def sent : Option Byte :=
  match d.tx with
  | some (b, n) => if t.lower ∧ frame ≤ n + 1 then some b else none
  | none => none

/-- The inputs of the core in this clock. -/
def pins : Pins where
  iDataRx := (d.delivery frame t).getD 0
  iDataValid := (d.delivery frame t).isSome
  iState0 := d.tx.isSome

/-- The transmitter after this clock. -/
def nextTx : Option (Byte × ℕ) :=
  match d.tx with
  | none => if d.core.oDataValid ∧ t.raise then some (d.core.oDataTx, 0) else none
  | some (b, n) => if (d.sent frame t).isSome then none else some (b, n + 1)

/-- One clock. -/
def clock : Device where
  core := d.core.step (d.pins frame t)
  tx := d.nextTx frame t
  down := if (d.delivery frame t).isSome then d.down.tail else d.down
  age := if (d.delivery frame t).isSome then 0 else d.age + 1
  up := d.up ++ (d.sent frame t).toList
  rx := d.rx

/-- The first byte on the way up reaches the host. -/
def arrive : Device := { d with up := d.up.tail, rx := d.rx ++ d.up.head?.toList }

/-- The host writes to the port. -/
def write (bs : List Byte) : Device :=
  { d with down := d.down ++ bs, age := if d.down = [] then 0 else d.age }

/-- `tcflush`: what was received and not read is dropped, and of what was written all but the
first `kept` bytes, which have left the host. -/
def flush (kept : ℕ) : Device := { d with down := d.down.take kept, rx := [] }

/-- The host has read `n` bytes. -/
def read (n : ℕ) : Device := { d with rx := d.rx.drop n }

end Device

end Vcil.System
