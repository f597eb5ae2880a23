import Vcil.Host.Bridge
import Vcil.Lib.LeadsTo
import Vcil.System.Device

/-!
# Guest code on the bridge

The functions `custom3_sm3p0`, `custom3_sm3p1` of `sm3.h` and `custom3_sm4ks`, `custom3_sm4ed` of
`sm4.h` are one program: five register writes, each followed by a loop that polls the state
register, and a read of the result.  `Session` is that program on the bus, the bridge it talks to
and the board behind the bridge.

* `Call`: a call of the program, `Call.of` the call for each of the four functions;
* `Session.hostStep`: a step of the guest, or a `read()` of the bridge while it blocks the guest;
* `session frame`: the machine, driven by clocks, bytes that reach the host, and host steps, with
  the kinds of event that a working line and a running host keep producing.
-/

namespace Vcil.System

open Vcil.Rtl Vcil.Host

/-! ### The program -/

/-- `Endian`: how the words in memory lie. -/
inductive Endian
  | le
  | be
  deriving DecidableEq, Repr

/-- `get_endian`, from the two bytes of `0x1122` as they lie in memory. -/
def getEndian (p0 p1 : Byte) : Endian := if p0 < p1 then .be else .le

/-- The macro `LE2BE`. -/
def le2be (x : Word) : Word :=
  ((x &&& 0x000000ff) <<< 24) ||| ((x &&& 0x0000ff00) <<< 8) ||| ((x &&& 0x00ff0000) >>> 8) |||
    ((x &&& 0xff000000) >>> 24)

/-- The word that `writeReg32` stores, and that `readReg32` returns for a word loaded. -/
def swapReg32 (mode : Endian) (data : Word) : Word :=
  match mode with
  | .le => data
  | .be => le2be data

/-- The processor is little-endian. -/
def mode : Endian := getEndian 0x22 0x11

/-- The locals of a call; `rdata` is not initialised. -/
structure Call where
  code : Word
  rs1 : Word
  rs2 : Word
  rdata : Word
  deriving DecidableEq, Repr

namespace Call

/-- `custom3_sm3p0(x)`, with what the local `rdata` holds at first. -/
def custom3Sm3p0 (x rdata : Word) : Call := ⟨0x7b710000, x, 0, rdata⟩
/-- `custom3_sm3p1(x)`. -/
def custom3Sm3p1 (x rdata : Word) : Call := ⟨0x7b720000, x, 0, rdata⟩
/-- `custom3_sm4ks(k, tk)`. -/
def custom3Sm4ks (k tk rdata : Word) : Call := ⟨0x7b730000, k, tk, rdata⟩
/-- `custom3_sm4ed(x, tx)`. -/
def custom3Sm4ed (x tx rdata : Word) : Call := ⟨0x7b740000, x, tx, rdata⟩

/-- The call for an operation; SM3 has one operand. -/
def of (op : Op) (x y rdata : Word) : Call :=
  match op with
  | .sm3p0 => custom3Sm3p0 x rdata
  | .sm3p1 => custom3Sm3p1 x rdata
  | .sm4ks => custom3Sm4ks x y rdata
  | .sm4ed => custom3Sm4ed x y rdata

/-- The word written to `addr_x_in_k`; the last two are `MOD_POLL` and `MOD_READ`. -/
def data (c : Call) (k : Fin 5) : Word :=
  match k with
  | 0 => c.code
  | 1 => c.rs1
  | 2 => c.rs2
  | 3 => 0x000000ff
  | 4 => 0x00000000

end Call

/-- The offset of `addr_x_in_k`. -/
def xIn (k : Fin 5) : Word := BitVec.ofNat 32 (4 * k)

/-- Where a call is. -/
inductive Pc
  /-- before the write to `addr_x_in_k` -/
  | store (k : Fin 5)
  /-- in that write, which waits for the board -/
  | waiting (k : Fin 5) (w : Wait)
  /-- at the head of the loop after it -/
  | loop (k : Fin 5)
  /-- before the read of `addr_y_out_0` -/
  | result
  deriving DecidableEq, Repr

/-- The guest: the calls to make, the first of them being executed, and the results so far. -/
structure Guest where
  calls : List Call
  pc : Pc
  rdata : Word
  results : List Word
  deriving DecidableEq, Repr

/-- Guest, bridge and board. -/
structure Session where
  guest : Guest
  bridge : Bridge
  device : Device
  deriving DecidableEq, Repr

/-- What follows loop `k`. -/
def Pc.afterLoop : Fin 5 → Pc
  | 0 => .store 1
  | 1 => .store 2
  | 2 => .store 3
  | 3 => .store 4
  | 4 => .result

/-- Where the guest is when the bridge has got to `p` in the write to `addr_x_in_k`. -/
def Pc.inStore (k : Fin 5) (p : Progress) : Pc :=
  match p.wait with
  | some w => .waiting k w
  | none => .loop k

namespace Session

/-- A guest about to make the calls, a new bridge, and the board after reset. -/
def init (calls : List Call) : Session := ⟨⟨calls, .store 0, 0, []⟩, Bridge.init, Device.init⟩

/-- The bytes a `read()` of at most `n` bytes returns, if it returns all or nothing. -/
def readable (d : Device) (n : ℕ) (full : Bool) : List Byte :=
  if full ∧ n ≤ d.rx.length then d.rx.take n else []

/-- The host writes what the bridge sends, if anything. -/
def transmit (d : Device) (bs : List Byte) : Device := if bs = [] then d else d.write bs

/-- A step of the guest or of the bridge. -/
def hostStep (s : Session) (full : Bool) (kept : ℕ) : Session :=
  match s.guest.calls with
  | [] => s
  | c :: rest =>
    match s.guest.pc with
    | .store k =>
      let p := s.bridge.sm4Write (xIn k) (swapReg32 mode (c.data k))
      { guest :=
          { s.guest with
            pc := .inStore k p
            rdata := if k = 0 then c.rdata else s.guest.rdata }
        bridge := p.bridge
        device := (s.device.flush kept).write p.sends }
    | .waiting k w =>
      let bytes := readable s.device w.size full
      let p := s.bridge.resume w (some bytes)
      { guest := { s.guest with pc := .inStore k p }
        bridge := p.bridge
        device := transmit (s.device.read bytes.length) p.sends }
    | .loop k =>
      if s.guest.rdata ≠ BitVec.ofNat 32 (k + 1) then
        { s with
          guest :=
            { s.guest with rdata := swapReg32 mode (s.bridge.sm4Read 0x18 s.guest.rdata) } }
      else { s with guest := { s.guest with pc := .afterLoop k } }
    | .result =>
      { s with
        guest :=
          { calls := rest
            pc := .store 0
            rdata := s.guest.rdata
            results := s.guest.results ++ [swapReg32 mode (s.bridge.sm4Read 0x14 0)] } }

end Session

/-! ### Events -/

/-- A clock of the board, a byte that reaches the host, or a step of the host, in which `read()`
returns what there is only if it is `full`, and a flush leaves `kept` written bytes. -/
inductive Event
  | clock (t : Tick)
  | arrive
  | host (full : Bool) (kept : ℕ)
  deriving DecidableEq, Repr

/-- What keeps happening. -/
inductive Kind
  | raise
  | lower
  | deliver
  | arrive
  | host
  deriving DecidableEq, Repr

/-- The event is of the kind. -/
def Kind.Fires : Kind → Event → Prop
  | .raise, .clock t => t.raise = true
  | .lower, .clock t => t.lower = true
  | .deliver, .clock t => t.deliver = true
  | .arrive, .arrive => True
  | .host, .host full _ => full = true
  | _, _ => False

/-- One step of the whole system; a frame takes at least `frame` clocks. -/
def Session.step (frame : ℕ) (s : Session) : Event → Session
  | .clock t => { s with device := s.device.clock frame t }
  | .arrive => { s with device := s.device.arrive }
  | .host full kept => s.hostStep full kept

/-- The system as a machine. -/
def session (frame : ℕ) : Progress.Machine Session Event Kind := ⟨Session.step frame, Kind.Fires⟩

/-- The board alone: it takes no part in the steps of the host. -/
def Device.pass (frame : ℕ) (d : Device) : Event → Device
  | .clock t => d.clock frame t
  | .arrive => d.arrive
  | .host _ _ => d

/-- The board as a machine. -/
def board (frame : ℕ) : Progress.Machine Device Event Kind := ⟨Device.pass frame, Kind.Fires⟩

end Vcil.System
