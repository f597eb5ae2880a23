import Vcil.Lib.Countdown

/-!
# `HiFive1PipelineTiming`

The pipeline timing model of the simulator in its `E203_TIMING` configuration.  It keeps relative
latencies, which every stall decrements; an assertion that fails is `none`.

* `int`: the latencies are integers of the source's `int`;
* `Range`, `StoreReservation`, `OperationReservation`, `RegisterLatency`: the records;
* `Pipeline.advance` and the calls of the simulator built on it;
* `Call`, `Pipeline.run`: sequences of calls.
-/

namespace Vcil.Timing

/-- The largest `int`. -/
def intMax : ℤ := 0x7fffffff

/-- A sum of `int`s that may overflow, which C++ leaves undefined; here it wraps around.  The other
sums and differences of the model are taken of asserted or constant positive latencies and stay in
range. -/
def int (x : ℤ) : ℤ := x.bmod 0x100000000

theorem int_of_le {x : ℤ} (hpos : 0 < x) (hle : x ≤ intMax) : int x = x := by
  rw [intMax] at hle
  exact Int.bmod_eq_of_le_mul_two (by omega) (by omega)

/-- An address range, the end excluded, in 32-bit arithmetic. -/
structure Range where
  start : BitVec 32
  «end» : BitVec 32
  deriving DecidableEq, Repr

/-- Whether two ranges share an address. -/
def Range.overlaps (r other : Range) : Bool :=
  if other.start < r.start then other.end > r.start else r.end > other.start

/-- `size()`, which wraps around like the addresses. -/
def Range.size (r : Range) : BitVec 32 := r.end - r.start

/-- A pending result: the register and the cycles until its value is there. -/
abbrev RegisterLatency := Countdown ℕ

/-- A pending store: its addresses and the cycles until it is done. -/
abbrev StoreReservation := Countdown Range

/-- `RegisterLatency::advance` and `StoreReservation::advance`: the record after the cycles and
whether it is still pending. -/
def advanceLatency {κ : Type} (e : Countdown κ) (numCycles : ℤ) : Option (Countdown κ × Bool) := do
  guard (e.latency > 0)
  let latency := e.latency - numCycles
  return (⟨e.key, latency⟩, !(latency ≤ 0))

/-- The loop over a vector of pending records, which erases those that are no longer pending. -/
def advanceAll {κ : Type} (numCycles : ℤ) : List (Countdown κ) → Option (List (Countdown κ))
  | [] => some []
  | e :: es => do
      let (e', alive) ← advanceLatency e numCycles
      let es' ← advanceAll numCycles es
      return if alive then e' :: es' else es'

/-- The reservation of the multiplication or the division unit. -/
structure OperationReservation where
  acquired : Bool
  latency : ℤ
  deriving DecidableEq, Repr

namespace OperationReservation

/-- A unit that no operation occupies. -/
def free : OperationReservation := ⟨false, 0⟩

variable (u : OperationReservation)

/-- `acquire(num_cycles)`, with its two assertions. -/
def acquire (numCycles : ℤ) : Option OperationReservation := do
  guard (numCycles > 0)
  guard (!u.acquired)
  return ⟨true, numCycles⟩

/-- `release()`, with its two assertions. -/
def release : Option OperationReservation := do
  guard (u.latency ≤ 0)
  guard u.acquired
  return { u with acquired := false }

/-- `OperationReservation::advance`, and whether the unit is still occupied, or was free before. -/
def advance (numCycles : ℤ) : Option (OperationReservation × Bool) :=
  if !u.acquired then some (u, true)
  else do
    guard (u.latency > 0)
    let u' : OperationReservation := { u with latency := u.latency - numCycles }
    if u'.latency ≤ 0 then
      return (← u'.release, false)
    else
      return (u', true)

end OperationReservation

/-- The state of the timing model. -/
structure Pipeline where
  pendingRegisterLatencies : List RegisterLatency
  mult : OperationReservation
  div : OperationReservation
  pendingStoreReservations : List StoreReservation
  numTotalCycles : BitVec 64
  deriving DecidableEq, Repr

namespace Pipeline

/-- Nothing is pending; the cycle counter shows `cycles`. -/
def empty (cycles : BitVec 64) : Pipeline := ⟨[], .free, .free, [], cycles⟩

variable (p : Pipeline)

/-- `advance(num_cycles)`: all that is pending ages together. -/
def advance (numCycles : ℤ) : Option Pipeline := do
  guard (numCycles > 0)
  let registers ← advanceAll numCycles p.pendingRegisterLatencies
  let (mult, _) ← p.mult.advance numCycles
  let (div, _) ← p.div.advance numCycles
  let stores ← advanceAll numCycles p.pendingStoreReservations
  return ⟨registers, mult, div, stores, p.numTotalCycles + BitVec.ofInt 64 numCycles⟩

/-- `stall(num_cycles)`. -/
def stall (numCycles : ℤ) : Option Pipeline := p.advance numCycles

/-- Waits for a pending result of the register. -/
def accessRegister (regIdx : ℕ) : Option Pipeline :=
  match p.pendingRegisterLatencies.find? (fun e => e.key = regIdx) with
  | some e => p.stall e.latency
  | none => some p

/-- `_find(reg_idx)`. -/
def find (regIdx : ℕ) : Bool := p.pendingRegisterLatencies.any fun e => e.key = regIdx

/-- `add_result_latency(reg_idx, result_latency)`: an assertion says that the register has no
entry. -/
def addResultLatency (regIdx : ℕ) (resultLatency : ℤ) : Option Pipeline := do
  guard (!p.find regIdx)
  guard (resultLatency > 0)
  return { p with
    pendingRegisterLatencies := p.pendingRegisterLatencies ++ [⟨regIdx, resultLatency⟩] }

/-- `if (unit.acquired) stall(unit.latency)`. -/
def waitFor (unit : OperationReservation) : Option Pipeline :=
  if unit.acquired then p.stall unit.latency else some p

/-- `reserve_mult(num_cycles)`, which waits for the previous multiplication. -/
def reserveMult (numCycles : ℤ) : Option Pipeline := do
  let p ← p.waitFor p.mult
  return { p with mult := ← p.mult.acquire numCycles }

/-- `get_mult_result_latency(a, b)` with `E203_TIMING`. -/
def getMultResultLatency (_a _b : BitVec 32) : ℤ := 17

/-- `do_mult(result_reg_idx, a, b)`: the result is there a cycle after the unit is free. -/
def doMult (resultRegIdx : ℕ) (a b : BitVec 32) : Option Pipeline := do
  let numCycles := getMultResultLatency a b
  let p ← p.reserveMult numCycles
  p.addResultLatency resultRegIdx (numCycles + 1)

/-- `reserve_div(num_cycles)`, which waits for the previous division. -/
def reserveDiv (numCycles : ℤ) : Option Pipeline := do
  let p ← p.waitFor p.div
  return { p with div := ← p.div.acquire numCycles }

/-- `get_div_result_latency(a, b)` with `E203_TIMING`. -/
def getDivResultLatency (_a _b : BitVec 32) : ℤ := 33

/-- `do_div(result_reg_idx, a, b)`: the result is there a cycle after the unit is free. -/
def doDiv (resultRegIdx : ℕ) (a b : BitVec 32) : Option Pipeline := do
  let numCycles := getDivResultLatency a b
  let p ← p.reserveDiv numCycles
  p.addResultLatency resultRegIdx (numCycles + 1)

/-- `do_csr(result_reg_idx)`. -/
def doCsr (resultRegIdx : ℕ) : Option Pipeline := p.addResultLatency resultRegIdx 5

/-- `reserve_store(addr_range, num_cycles)`. -/
def reserveStore (addrRange : Range) (numCycles : ℤ) : Pipeline :=
  { p with
    pendingStoreReservations := p.pendingStoreReservations ++ [⟨addrRange, int (numCycles + 1)⟩] }

/-- `has_store_reservation(addrs)`. -/
def hasStoreReservation (addrs : Range) : Bool :=
  p.pendingStoreReservations.any fun e => e.key.overlaps addrs

/-- `do_load(addr_range, rd, latency)`: a load that meets a pending store waits a cycle, and takes
one more for less than a word. -/
def doLoad (addrRange : Range) (rd : ℕ) (latency : ℤ) : Option Pipeline := do
  if p.hasStoreReservation addrRange then
    let p ← p.stall 1
    let extra : ℤ := if addrRange.size < 4 then 1 else 0
    p.addResultLatency rd (int (latency + extra))
  else
    p.addResultLatency rd latency

end Pipeline

/-- The calls the simulator makes. -/
inductive Call
  | advance (numCycles : ℤ)
  | accessRegister (regIdx : ℕ)
  | doMult (resultRegIdx : ℕ) (a b : BitVec 32)
  | doDiv (resultRegIdx : ℕ) (a b : BitVec 32)
  | doCsr (resultRegIdx : ℕ)
  | reserveStore (addrRange : Range) (numCycles : ℤ)
  | doLoad (addrRange : Range) (rd : ℕ) (latency : ℤ)
  deriving DecidableEq, Repr

/-- One call. -/
def Pipeline.call (p : Pipeline) : Call → Option Pipeline
  | .advance n => p.advance n
  | .accessRegister r => p.accessRegister r
  | .doMult rd a b => p.doMult rd a b
  | .doDiv rd a b => p.doDiv rd a b
  | .doCsr rd => p.doCsr rd
  | .reserveStore range n => some (p.reserveStore range n)
  | .doLoad range rd l => p.doLoad range rd l

/-- A sequence of calls. -/
def Pipeline.run (p : Pipeline) (calls : List Call) : Option Pipeline := calls.foldlM call p

end Vcil.Timing
