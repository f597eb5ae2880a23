import Mathlib.Logic.Function.Basic
import Vcil.Timing.Scoreboard

/-!
# `HiFive1BranchPredictor`

The branch prediction of the `BRANCH_TIMING` configuration: a return address stack, a table of branch
targets and a table of branch histories.  A wrong prediction stalls the pipeline timing model.

* `RAS`, `BTB`, `BHT`: the three structures, `RAS` with its bound and `BHT.Entry` with the range of
  its counters;
* `BranchPredictor.updateBranchPrediction`, `doJump`, `doCall`, `doRet`: what follows an instruction;
* `Charges`: these calls fail no assertion of a valid pipeline, and cost nothing or the penalty.
-/

namespace Vcil.Timing

/-! ### The return address stack -/

/-- `SIZE`. -/
def RAS.size : ℕ := 2

/-- The most recent address is the last. -/
structure RAS where
  q : List (BitVec 64)
  bounded : q.length ≤ RAS.size

namespace RAS

variable (s : RAS)

/-- The stack is empty at first. -/
def init : RAS := ⟨[], Nat.zero_le _⟩

/-- A third address drops the oldest. -/
def push (pc : BitVec 64) : RAS where
  q := if RAS.size < (s.q ++ [pc]).length then (s.q ++ [pc]).tail else s.q ++ [pc]
  bounded := by
    have hlen := s.bounded
    split_ifs with h
    · rw [List.length_tail, List.length_append, List.length_singleton]
      omega
    · exact Nat.le_of_not_lt h

/-- `empty()`. -/
def empty : Bool := s.q.isEmpty

/-- The address at the back, and the stack without it; the assertion fails for an empty stack. -/
def pop : Option (BitVec 64 × RAS) :=
  s.q.getLast?.map fun ans =>
    (ans, ⟨s.q.dropLast, by
      rw [List.length_dropLast]
      exact (Nat.sub_le _ _).trans s.bounded⟩)

end RAS

/-! ### The branch target buffer -/

/-- `NumEntries` of the branch target buffer. -/
def BTB.numEntries : ℕ := 40

/-- The table is indexed by the address of the branch; its entries hold no tag. -/
structure BTB where
  table : Fin BTB.numEntries → BitVec 64

namespace BTB

variable (b : BTB)

/-- The targets are 0 at first. -/
def init : BTB := ⟨fun _ => 0⟩

/-- `_tag`; the instruction alignment is 1. -/
def tag (pc : BitVec 64) : Fin BTB.numEntries :=
  ⟨pc.toNat % BTB.numEntries, Nat.mod_lt _ (by decide)⟩

/-- The last target of the branch, or of one with the same tag. -/
def find (pc : BitVec 64) : BitVec 64 := b.table (tag pc)

/-- `update(pc, target)`. -/
def update (pc target : BitVec 64) : BTB := ⟨Function.update b.table (tag pc) target⟩

theorem find_update (pc target pc' : BitVec 64) :
    (b.update pc target).find pc' = if tag pc' = tag pc then target else b.find pc' :=
  Function.update_apply ..

end BTB

/-! ### The branch history table -/

namespace BHT

/-- `NumEntries` of the branch history table. -/
def numEntries : ℕ := 128

/-- `CounterThreshold`: from here on a branch is predicted taken. -/
def counterThreshold : ℤ := 2
/-- `CounterMax`, for counters of two bits. -/
def counterMax : ℤ := 3

/-- `HistoryMask`, for three history bits. -/
def historyMask : BitVec 3 := 4

/-- The last three branches, the latest in the top bit, and a saturating counter for each history. -/
structure Entry where
  history : BitVec 3
  counters : BitVec 3 → ℤ
  range : ∀ h, 0 ≤ counters h ∧ counters h ≤ counterMax

namespace Entry

variable (e : Entry)

/-- History and counters are 0 at first. -/
def init : Entry := ⟨0, fun _ => 0, fun _ => by decide⟩

/-- `predict_branch_taken()`, by the counter of the present history. -/
def predictBranchTaken : Bool := counterThreshold ≤ e.counters e.history

/-- The counter of the history moves towards what the branch did, which the history then records. -/
def updateHistory (branchTaken : Bool) : Entry where
  history := (e.history >>> 1) ||| (if branchTaken then historyMask else 0)
  counters := Function.update e.counters e.history
    (if branchTaken then min (e.counters e.history + 1) counterMax
      else max (e.counters e.history - 1) 0)
  range h := by
    by_cases hh : h = e.history
    · subst hh
      have hmax : (0 : ℤ) ≤ counterMax := by decide
      obtain ⟨hlo, hhi⟩ := e.range e.history
      rw [Function.update_self]
      split_ifs <;> omega
    · rw [Function.update_of_ne hh]
      exact e.range h

end Entry

end BHT

/-- The table is indexed by the address of the branch. -/
structure BHT where
  table : Fin BHT.numEntries → BHT.Entry

namespace BHT

variable (b : BHT)

/-- All entries are alike at first. -/
def init : BHT := ⟨fun _ => .init⟩

/-- The tag of `get_entry`; the instruction alignment is 1. -/
def tag (pc : BitVec 64) : Fin BHT.numEntries :=
  ⟨pc.toNat % BHT.numEntries, Nat.mod_lt _ (by decide)⟩

/-- `get_entry(pc)`. -/
def getEntry (pc : BitVec 64) : Entry := b.table (tag pc)

/-- A write through the reference that `get_entry` returns. -/
def setEntry (pc : BitVec 64) (e : Entry) : BHT := ⟨Function.update b.table (tag pc) e⟩

theorem table_setEntry (pc : BitVec 64) (e : Entry) (k : Fin numEntries) :
    (b.setEntry pc e).table k = if k = tag pc then e else b.table k := Function.update_apply ..

end BHT

/-! ### The predictor -/

/-- `HiFive1BranchPredictor`. -/
structure BranchPredictor where
  ras : RAS
  btb : BTB
  bht : BHT

namespace BranchPredictor

/-- The predictor of a new simulator. -/
def init : BranchPredictor := ⟨.init, .init, .init⟩

/-- `BranchMispredictionPenalty`, in cycles. -/
def branchMispredictionPenalty : ℤ := 3

variable (b : BranchPredictor) (p : Pipeline)

/-- `BTB.update(last_pc, pc)` and the penalty. -/
def mispredictTarget (lastPc pc : BitVec 64) : Option (BranchPredictor × Pipeline) := do
  let p ← p.stall branchMispredictionPenalty
  return ({ b with btb := b.btb.update lastPc pc }, p)

variable {b p} in
theorem mispredictTarget_ok {lastPc pc : BitVec 64} {x : BranchPredictor × Pipeline}
    (h : b.mispredictTarget p lastPc pc = some x) :
    p.stall branchMispredictionPenalty = some x.2 ∧
      x.1 = { b with btb := b.btb.update lastPc pc } := by
  obtain ⟨p', hstall, hx⟩ := Option.bind_eq_some_iff.1 h
  cases hx
  exact ⟨hstall, rfl⟩

/-- The two predictions, compared with what the branch did. -/
def comparePrediction (lastPc pc : BitVec 64) (branchTaken : Bool) :
    Option (BranchPredictor × Pipeline) :=
  if (b.bht.getEntry lastPc).predictBranchTaken then
    if branchTaken then
      if b.btb.find lastPc ≠ pc then b.mispredictTarget p lastPc pc else some (b, p)
    else (p.stall branchMispredictionPenalty).map fun p => (b, p)
  else if branchTaken then b.mispredictTarget p lastPc pc
  else some (b, p)

/-- Called after every branch, with the address of the branch and the next address. -/
def updateBranchPrediction (lastPc pc : BitVec 64) (branchTaken : Bool) :
    Option (BranchPredictor × Pipeline) := do
  let (b, p) ← b.comparePrediction p lastPc pc branchTaken
  let entry := b.bht.getEntry lastPc
  return ({ b with bht := b.bht.setEntry lastPc (entry.updateHistory branchTaken) }, p)

/-- The link address of a jump is not used. -/
def doJump (lastPc pc _link : BitVec 64) : Option (BranchPredictor × Pipeline) :=
  if b.btb.find lastPc ≠ pc then b.mispredictTarget p lastPc pc else some (b, p)

/-- A jump that pushes its link address. -/
def doCall (lastPc pc link : BitVec 64) : Option (BranchPredictor × Pipeline) := do
  let (b, p) ← b.doJump p lastPc pc link
  return ({ b with ras := b.ras.push link }, p)

/-- A return goes to the address on the stack; without one, or with another, it is a jump. -/
def doRet (lastPc pc link : BitVec 64) : Option (BranchPredictor × Pipeline) :=
  if b.ras.empty then b.doJump p lastPc pc link
  else do
    let (ans, ras) ← b.ras.pop
    let b := { b with ras := ras }
    if pc ≠ ans then b.doJump p lastPc pc link else some (b, p)

/-! ### What a call costs -/

/-- The call succeeds, and leaves the pipeline as it was or stalled for the penalty. -/
def Charges (r : Option (BranchPredictor × Pipeline)) : Prop :=
  ∃ b' p', r = some (b', p') ∧ (p' = p ∨ p.advance branchMispredictionPenalty = some p')

variable {p}

theorem charges_free : Charges p (some (b, p)) := ⟨b, p, rfl, .inl rfl⟩

theorem Charges.map {r : Option (BranchPredictor × Pipeline)} (h : Charges p r)
    (f : BranchPredictor → BranchPredictor) :
    Charges p (r.bind fun x => some (f x.1, x.2)) := by
  obtain ⟨b', p', rfl, hp'⟩ := h
  exact ⟨f b', p', rfl, hp'⟩

section

variable (hp : p.Valid) (lastPc pc link : BitVec 64)

include hp

theorem stall_penalty : ∃ p', p.stall branchMispredictionPenalty = some p' ∧
    p.advance branchMispredictionPenalty = some p' := by
  obtain ⟨p', hp', -⟩ := hp.advance (show 0 < branchMispredictionPenalty by decide)
  exact ⟨p', hp', hp'⟩

theorem charges_mispredictTarget : Charges p (b.mispredictTarget p lastPc pc) := by
  obtain ⟨p', hstall, hadvance⟩ := stall_penalty hp
  rw [mispredictTarget, hstall]
  exact ⟨_, p', rfl, .inr hadvance⟩

theorem charges_comparePrediction (branchTaken : Bool) :
    Charges p (b.comparePrediction p lastPc pc branchTaken) := by
  obtain ⟨p', hstall, hadvance⟩ := stall_penalty hp
  have hwrong := charges_mispredictTarget b hp lastPc pc
  unfold comparePrediction
  split
  · split
    · split
      · exact hwrong
      · exact charges_free b
    · rw [hstall]
      exact ⟨b, p', rfl, .inr hadvance⟩
  · split
    · exact hwrong
    · exact charges_free b

theorem charges_updateBranchPrediction (branchTaken : Bool) :
    Charges p (b.updateBranchPrediction p lastPc pc branchTaken) :=
  (charges_comparePrediction b hp lastPc pc branchTaken).map fun b' =>
    { b' with bht := b'.bht.setEntry lastPc ((b'.bht.getEntry lastPc).updateHistory branchTaken) }

theorem charges_doJump : Charges p (b.doJump p lastPc pc link) := by
  unfold doJump
  split
  · exact charges_mispredictTarget b hp lastPc pc
  · exact charges_free b

theorem charges_doCall : Charges p (b.doCall p lastPc pc link) :=
  (charges_doJump b hp lastPc pc link).map fun b' => { b' with ras := b'.ras.push link }

end

end BranchPredictor

end Vcil.Timing
