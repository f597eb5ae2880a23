import Mathlib.Algebra.BigOperators.Group.Finset.Basic
import Mathlib.Algebra.Order.BigOperators.Group.Finset
import Mathlib.Data.FinEnum
import Vcil.Lib.SaturatingCounter
import Vcil.Timing.BranchPredictor

/-!
# What the branch history learns

A branch whose outcome depends on nothing but the history of its entry, and the penalties it pays
until the predictor knows it.

* `RawEntry`, `RawPredictor`: the predictor in memory, with a history that is any `unsigned` and
  counters that are any `int`; accesses outside of the counters and failed assertions are `none`;
* `RawPredictor.InRange`, `raw_updateBranchPrediction`: in range it is a `BranchPredictor`, and stays
  one;
* `Executions`: a run of the branch, whatever happens in between to other entries;
* `potential`: the mispredictions that are left, which every misprediction lowers;
* `branch_learns`: at most seventeen of them.
-/

namespace Vcil.Timing

open SaturatingCounter (debt debt_le debt_step_le debt_step_lt step)

/-! ### The entries in memory -/

/-- `HiFive1BHT::Entry`. -/
structure RawEntry where
  history : BitVec 32
  counters : Fin 8 → ℤ

namespace RawEntry

variable (e : RawEntry)

/-- The counter of the history, if there is one. -/
def index : Option (Fin 8) := if h : e.history.toNat < 8 then some ⟨e.history.toNat, h⟩ else none

def predictBranchTaken : Option Bool := do
  return BHT.counterThreshold ≤ e.counters (← e.index)

def updateHistory (branchTaken : Bool) : Option RawEntry := do
  let k ← e.index
  let counter :=
    if branchTaken then min (e.counters k + 1) BHT.counterMax else max (e.counters k - 1) 0
  return { history := (e.history >>> 1) ||| (if branchTaken then 4 else 0)
           counters := Function.update e.counters k counter }

/-- The history is below eight and the counters are from 0 to 3. -/
def InRange : Prop := e.history.toNat < 8 ∧ ∀ k, 0 ≤ e.counters k ∧ e.counters k ≤ BHT.counterMax

end RawEntry

/-- An entry in range, as it is in memory. -/
def BHT.Entry.raw (e : BHT.Entry) : RawEntry :=
  ⟨e.history.setWidth 32, fun k => e.counters (BitVec.ofFin k)⟩

section Entries

variable (e : BHT.Entry)

theorem index_raw : e.raw.index = some ⟨e.history.toNat, e.history.isLt⟩ := by
  have hhistory : e.raw.history.toNat = e.history.toNat := by
    have hlt := e.history.isLt
    show (e.history.setWidth 32).toNat = _
    rw [BitVec.toNat_setWidth]
    omega
  have hlt : e.raw.history.toNat < 8 := hhistory ▸ e.history.isLt
  rw [RawEntry.index, dif_pos hlt]
  simp only [hhistory]

theorem raw_predictBranchTaken : e.raw.predictBranchTaken = some e.predictBranchTaken := by
  rw [RawEntry.predictBranchTaken, index_raw]
  rfl

theorem raw_updateHistory (branchTaken : Bool) :
    e.raw.updateHistory branchTaken = some (e.updateHistory branchTaken).raw := by
  have hhistory : ∀ h : BitVec 3,
      (h.setWidth 32 >>> 1) ||| (if branchTaken then (4 : BitVec 32) else 0) =
        ((h >>> 1) ||| (if branchTaken then BHT.historyMask else 0)).setWidth 32 := by
    cases branchTaken <;> decide
  rw [RawEntry.updateHistory, index_raw]
  refine congrArg some (congrArg₂ RawEntry.mk (hhistory e.history) ?_)
  funext k
  show Function.update e.raw.counters _ _ k =
    Function.update e.counters e.history _ (BitVec.ofFin k)
  by_cases hk : BitVec.ofFin k = e.history
  · obtain rfl : k = ⟨e.history.toNat, e.history.isLt⟩ := Fin.ext (congrArg BitVec.toNat hk)
    rw [Function.update_self, hk, Function.update_self]
    rfl
  · rw [Function.update_of_ne hk, Function.update_of_ne]
    · rfl
    · rintro rfl
      exact hk rfl

/-- The entries in range are the entries with their invariant. -/
theorem RawEntry.inRange_iff {r : RawEntry} : r.InRange ↔ ∃ e : BHT.Entry, e.raw = r := by
  constructor
  · rintro ⟨hhistory, hcounters⟩
    refine ⟨⟨BitVec.ofNat 3 r.history.toNat, fun h => r.counters h.toFin, fun h => hcounters _⟩, ?_⟩
    have hback : (BitVec.ofNat 3 r.history.toNat).setWidth 32 = r.history := by
      apply BitVec.eq_of_toNat_eq
      rw [BitVec.toNat_setWidth, BitVec.toNat_ofNat]
      omega
    exact congrArg (RawEntry.mk · r.counters) hback
  · rintro ⟨e, rfl⟩
    have hlt := e.history.isLt
    refine ⟨?_, fun k => e.range _⟩
    show (e.history.setWidth 32).toNat < 8
    rw [BitVec.toNat_setWidth]
    omega

end Entries

/-! ### The predictor in memory -/

/-- `HiFive1BranchPredictor`. -/
structure RawPredictor where
  ras : RAS
  btb : BTB
  bht : Fin BHT.numEntries → RawEntry

namespace RawPredictor

variable (b : RawPredictor)

/-- The two predictions, compared with what the branch did. -/
def comparePrediction (p : Pipeline) (predicted : Bool) (lastPc pc : BitVec 64) (branchTaken : Bool) :
    Option (RawPredictor × Pipeline) :=
  let updateTarget : RawPredictor := { b with btb := b.btb.update lastPc pc }
  let penalty := p.stall BranchPredictor.branchMispredictionPenalty
  if predicted then
    if branchTaken then
      if b.btb.find lastPc ≠ pc then penalty.map fun p => (updateTarget, p) else some (b, p)
    else penalty.map fun p => (b, p)
  else if branchTaken then penalty.map fun p => (updateTarget, p)
  else some (b, p)

/-- `update_branch_prediction`. -/
def updateBranchPrediction (p : Pipeline) (lastPc pc : BitVec 64) (branchTaken : Bool) :
    Option (RawPredictor × Pipeline) := do
  let bhtEntry := b.bht (BHT.tag lastPc)
  let predicted ← bhtEntry.predictBranchTaken
  let (b, p) ← b.comparePrediction p predicted lastPc pc branchTaken
  let bhtEntry ← bhtEntry.updateHistory branchTaken
  return ({ b with bht := Function.update b.bht (BHT.tag lastPc) bhtEntry }, p)

/-- All histories are below eight and all counters from 0 to 3. -/
def InRange : Prop := ∀ k, (b.bht k).InRange

end RawPredictor

/-- A predictor whose entries are in range, as it is in memory. -/
def BranchPredictor.raw (b : BranchPredictor) : RawPredictor :=
  ⟨b.ras, b.btb, fun k => (b.bht.table k).raw⟩

theorem RawPredictor.inRange_iff {r : RawPredictor} :
    r.InRange ↔ ∃ b : BranchPredictor, b.raw = r := by
  constructor
  · intro h
    choose table htable using fun k => RawEntry.inRange_iff.1 (h k)
    refine ⟨⟨r.ras, r.btb, ⟨table⟩⟩, ?_⟩
    exact congrArg (RawPredictor.mk r.ras r.btb) (funext htable)
  · rintro ⟨b, rfl⟩ k
    exact RawEntry.inRange_iff.2 ⟨_, rfl⟩

section Predictors

variable (b : BranchPredictor) (p : Pipeline) (lastPc pc : BitVec 64) (branchTaken : Bool)

variable {b p lastPc pc branchTaken} in
/-- Both predictions are right, or a penalty is paid: for a wrong direction, or for a target that is
not the one in its slot. -/
theorem comparePrediction_ok {b' : BranchPredictor} {p' : Pipeline}
    (h : b.comparePrediction p lastPc pc branchTaken = some (b', p')) :
    (p' = p ∧ b' = b) ∨
      (p.stall BranchPredictor.branchMispredictionPenalty = some p' ∧
        (((b.bht.getEntry lastPc).predictBranchTaken ≠ branchTaken ∧ branchTaken = false ∧ b' = b) ∨
          (((b.bht.getEntry lastPc).predictBranchTaken ≠ branchTaken ∨ b.btb.find lastPc ≠ pc) ∧
            branchTaken = true ∧ b' = { b with btb := b.btb.update lastPc pc }))) := by
  unfold BranchPredictor.comparePrediction at h
  split_ifs at h with hpredict htaken hfind htaken
  · obtain ⟨hstall, rfl⟩ := BranchPredictor.mispredictTarget_ok h
    exact .inr ⟨hstall, .inr ⟨.inr hfind, htaken, rfl⟩⟩
  · cases h
    exact .inl ⟨rfl, rfl⟩
  · obtain ⟨p₁, hstall, hp₁⟩ := Option.map_eq_some_iff.1 h
    cases hp₁
    exact .inr ⟨hstall, .inl ⟨by rwa [hpredict, Ne, eq_comm], by simpa using htaken, rfl⟩⟩
  · obtain ⟨hstall, rfl⟩ := BranchPredictor.mispredictTarget_ok h
    exact .inr ⟨hstall, .inr ⟨.inl fun heq => hpredict (heq.trans htaken), htaken, rfl⟩⟩
  · cases h
    exact .inl ⟨rfl, rfl⟩

variable {b p lastPc pc branchTaken} in
theorem comparePrediction_bht {x : BranchPredictor × Pipeline}
    (h : b.comparePrediction p lastPc pc branchTaken = some x) : x.1.bht = b.bht := by
  rcases comparePrediction_ok h with ⟨-, hb⟩ | ⟨-, ⟨-, -, hb⟩ | ⟨-, -, hb⟩⟩ <;> rw [hb]

theorem raw_comparePrediction :
    b.raw.comparePrediction p (b.bht.getEntry lastPc).predictBranchTaken lastPc pc branchTaken =
      (b.comparePrediction p lastPc pc branchTaken).map (Prod.map BranchPredictor.raw id) := by
  unfold RawPredictor.comparePrediction BranchPredictor.comparePrediction
    BranchPredictor.mispredictTarget
  have hfind : b.raw.btb.find lastPc = b.btb.find lastPc := rfl
  rw [hfind]
  cases p.stall BranchPredictor.branchMispredictionPenalty <;>
    (split_ifs <;> rfl)

/-- The code on a predictor in range, and the predictor that carries the ranges. -/
theorem raw_updateBranchPrediction :
    b.raw.updateBranchPrediction p lastPc pc branchTaken =
      (b.updateBranchPrediction p lastPc pc branchTaken).map (Prod.map BranchPredictor.raw id) := by
  have hentry : b.raw.bht (BHT.tag lastPc) = (b.bht.getEntry lastPc).raw := rfl
  unfold RawPredictor.updateBranchPrediction BranchPredictor.updateBranchPrediction
  simp only [hentry, raw_predictBranchTaken, raw_updateHistory, Option.bind_eq_bind,
    Option.bind_some, raw_comparePrediction]
  cases hcompare : b.comparePrediction p lastPc pc branchTaken with
  | none => rfl
  | some x =>
    refine congrArg some (Prod.ext (congrArg (RawPredictor.mk x.1.ras x.1.btb) ?_) rfl)
    rw [← comparePrediction_bht hcompare]
    funext k
    show _ = ((x.1.bht.setEntry lastPc _).table k).raw
    rw [BHT.table_setEntry, Function.update_apply]
    split <;> rfl

end Predictors

/-! ### Runs of one branch -/

/-- The cycles that a call has added. -/
def addedCycles (p p' : Pipeline) : ℕ := (p'.numTotalCycles - p.numTotalCycles).toNat

/-- What the branch does next, as a function of the history of its entry. -/
def RawPredictor.takes (b : RawPredictor) (lastPc : BitVec 64) (outcome : BitVec 3 → Bool) : Bool :=
  outcome ((b.bht (BHT.tag lastPc)).history.setWidth 3)

/-- The predictor after executions of the branch at `lastPc`, and the sum of their penalties.  Other
branches and jumps come in between, none of them at the same entry or slot. -/
inductive Executions (lastPc target : BitVec 64) (outcome : BitVec 3 → Bool) (b₀ : RawPredictor) :
    RawPredictor → ℕ → Prop
  | start : Executions lastPc target outcome b₀ b₀ 0
  | execute {b b' : RawPredictor} {cost : ℕ} {p p' : Pipeline}
      (h : Executions lastPc target outcome b₀ b cost) (fallThrough : BitVec 64)
      (hb : b.updateBranchPrediction p lastPc
        (if b.takes lastPc outcome then target else fallThrough) (b.takes lastPc outcome) =
          some (b', p')) :
      Executions lastPc target outcome b₀ b' (cost + addedCycles p p')
  | branch {b b' : RawPredictor} {cost : ℕ} {p p' : Pipeline}
      (h : Executions lastPc target outcome b₀ b cost) {lastPc' pc : BitVec 64} {branchTaken : Bool}
      (hentry : BHT.tag lastPc' ≠ BHT.tag lastPc) (hslot : BTB.tag lastPc' ≠ BTB.tag lastPc)
      (hb : b.updateBranchPrediction p lastPc' pc branchTaken = some (b', p')) :
      Executions lastPc target outcome b₀ b' cost
  | jump {b : RawPredictor} {cost : ℕ} (h : Executions lastPc target outcome b₀ b cost) (ras : RAS)
      {btb : BTB} (hslot : btb.find lastPc = b.btb.find lastPc) :
      Executions lastPc target outcome b₀ { b with ras := ras, btb := btb } cost

theorem raw_takes (b : BranchPredictor) (lastPc : BitVec 64) (outcome : BitVec 3 → Bool) :
    b.raw.takes lastPc outcome = outcome (b.bht.getEntry lastPc).history := by
  refine congrArg outcome ?_
  show ((b.bht.getEntry lastPc).history.setWidth 32).setWidth 3 = _
  rw [BitVec.setWidth_setWidth_of_le _ (by decide), BitVec.setWidth_eq]

/-! ### The potential -/

section Potential

variable {lastPc target : BitVec 64} {outcome : BitVec 3 → Bool}

/-- The mispredictions left to a target that is not in its slot. -/
def slotDebt (lastPc target : BitVec 64) (b : BTB) : ℕ := if b.find lastPc = target then 0 else 1

/-- The wrong predictions that the counters of an entry have left. -/
def entryDebt (outcome : BitVec 3 → Bool) (e : BHT.Entry) : ℕ :=
  ∑ h, debt BHT.counterThreshold (outcome h) (e.counters h)

def potential (lastPc target : BitVec 64) (outcome : BitVec 3 → Bool) (b : BranchPredictor) : ℕ :=
  entryDebt outcome (b.bht.getEntry lastPc) + slotDebt lastPc target b.btb

theorem threshold_mem : 0 < BHT.counterThreshold ∧ BHT.counterThreshold ≤ BHT.counterMax := by decide

/-- Two for each history and one for the target. -/
theorem potential_le_seventeen (b : BranchPredictor) : potential lastPc target outcome b ≤ 17 := by
  have hentry : entryDebt outcome (b.bht.getEntry lastPc) ≤ Fintype.card (BitVec 3) • 2 :=
    Finset.sum_le_card_nsmul _ _ _ fun h _ => debt_le ((b.bht.getEntry lastPc).range h) (outcome h)
  have hcard : Fintype.card (BitVec 3) = 8 := by decide
  rw [hcard] at hentry
  change _ ≤ 8 * 2 at hentry
  unfold potential slotDebt
  split <;> omega

theorem counters_updateHistory (e : BHT.Entry) (branchTaken : Bool) (h : BitVec 3) :
    (e.updateHistory branchTaken).counters h = if h = e.history
      then step BHT.counterMax branchTaken (e.counters e.history) else e.counters h :=
  Function.update_apply ..

/-- The counter of the history that was met is the only one that changes. -/
theorem debt_updateHistory_le (e : BHT.Entry) (h : BitVec 3) :
    debt BHT.counterThreshold (outcome h)
        ((e.updateHistory (outcome e.history)).counters h) ≤
      debt BHT.counterThreshold (outcome h) (e.counters h) := by
  rw [counters_updateHistory]
  split_ifs with heq
  · rw [heq]
    exact debt_step_le threshold_mem _ _
  · exact Nat.le_refl _

theorem entryDebt_updateHistory_le (e : BHT.Entry) :
    entryDebt outcome (e.updateHistory (outcome e.history)) ≤ entryDebt outcome e :=
  Finset.sum_le_sum fun h _ => debt_updateHistory_le e h

/-- A wrong direction is paid for by the counter of its history. -/
theorem entryDebt_updateHistory_lt {e : BHT.Entry}
    (hwrong : e.predictBranchTaken ≠ outcome e.history) :
    entryDebt outcome (e.updateHistory (outcome e.history)) < entryDebt outcome e := by
  refine Finset.sum_lt_sum (fun h _ => debt_updateHistory_le e h) ⟨e.history, Finset.mem_univ _, ?_⟩
  rw [counters_updateHistory, if_pos rfl]
  exact debt_step_lt (e.range _) threshold_mem hwrong

/-! ### One execution -/

theorem addedCycles_self (p : Pipeline) : addedCycles p p = 0 := by
  rw [addedCycles, BitVec.sub_self]
  rfl

theorem addedCycles_stall {p p' : Pipeline}
    (h : p.stall BranchPredictor.branchMispredictionPenalty = some p') : addedCycles p p' = 3 := by
  rw [addedCycles, Pipeline.advance_numTotalCycles h, BitVec.add_comm, BitVec.add_sub_cancel]
  rfl

/-- Nothing happens, or the penalty is paid for a wrong direction or for a new target. -/
theorem comparePrediction_cases {b b' : BranchPredictor} {p p' : Pipeline} {branchTaken : Bool}
    {pc : BitVec 64} (hpc : branchTaken = true → pc = target)
    (h : b.comparePrediction p lastPc pc branchTaken = some (b', p')) :
    (addedCycles p p' = 0 ∧ b'.btb = b.btb) ∨
      (addedCycles p p' = 3 ∧ (b.bht.getEntry lastPc).predictBranchTaken ≠ branchTaken ∧
        slotDebt lastPc target b'.btb ≤ slotDebt lastPc target b.btb) ∨
      (addedCycles p p' = 3 ∧
        slotDebt lastPc target b'.btb < slotDebt lastPc target b.btb) := by
  have hknown : slotDebt lastPc target (b.btb.update lastPc target) = 0 := by
    rw [slotDebt, BTB.find_update, if_pos rfl, if_pos rfl]
  rcases comparePrediction_ok h with ⟨rfl, rfl⟩ | ⟨hstall, ⟨hwrong, -, rfl⟩ | ⟨hwhy, htaken, rfl⟩⟩
  · exact .inl ⟨addedCycles_self _, rfl⟩
  · exact .inr (.inl ⟨addedCycles_stall hstall, hwrong, Nat.le_refl _⟩)
  · obtain rfl := hpc htaken
    rcases hwhy with hwrong | hfind
    · refine .inr (.inl ⟨addedCycles_stall hstall, hwrong, ?_⟩)
      rw [hknown]
      exact Nat.zero_le _
    · have hunknown : slotDebt lastPc pc b.btb = 1 := if_neg hfind
      refine .inr (.inr ⟨addedCycles_stall hstall, ?_⟩)
      rw [hknown, hunknown]
      exact Nat.one_pos

theorem comparePrediction_btb {b : BranchPredictor} {p : Pipeline} {pc : BitVec 64}
    {branchTaken : Bool} {x : BranchPredictor × Pipeline}
    (h : b.comparePrediction p lastPc pc branchTaken = some x) :
    x.1.btb = b.btb ∨ x.1.btb = b.btb.update lastPc pc := by
  rcases comparePrediction_ok h with ⟨-, hb⟩ | ⟨-, ⟨-, -, hb⟩ | ⟨-, -, hb⟩⟩
  · exact .inl (congrArg _ hb)
  · exact .inl (congrArg _ hb)
  · exact .inr (congrArg _ hb)

/-- A penalty is paid for by the potential. -/
theorem potential_update {b b' : BranchPredictor} {p p' : Pipeline} {pc : BitVec 64}
    (hpc : outcome (b.bht.getEntry lastPc).history = true → pc = target)
    (h : b.updateBranchPrediction p lastPc pc (outcome (b.bht.getEntry lastPc).history) =
      some (b', p')) :
    addedCycles p p' + 3 * potential lastPc target outcome b' ≤
      3 * potential lastPc target outcome b := by
  obtain ⟨⟨b₁, p₁⟩, hcompare, hb'⟩ := Option.bind_eq_some_iff.1 h
  cases hb'
  have hbht : b₁.bht = b.bht := comparePrediction_bht hcompare
  have hentry : (b₁.bht.setEntry lastPc ((b₁.bht.getEntry lastPc).updateHistory
      (outcome (b.bht.getEntry lastPc).history))).getEntry lastPc =
        (b.bht.getEntry lastPc).updateHistory (outcome (b.bht.getEntry lastPc).history) := by
    rw [BHT.getEntry, BHT.table_setEntry, if_pos rfl, hbht]
  unfold potential
  simp only [hentry]
  have hle : entryDebt outcome ((b.bht.getEntry lastPc).updateHistory
      (outcome (b.bht.getEntry lastPc).history)) ≤ entryDebt outcome (b.bht.getEntry lastPc) :=
    entryDebt_updateHistory_le _
  rcases comparePrediction_cases hpc hcompare with ⟨hzero, hbtb⟩ | ⟨hthree, hwrong, hslot⟩ |
    ⟨hthree, hslot⟩
  · rw [hbtb]
    omega
  · have hlt := entryDebt_updateHistory_lt hwrong
    omega
  · omega

/-- A branch at another entry and slot. -/
theorem potential_other {b b' : BranchPredictor} {p p' : Pipeline} {lastPc' pc : BitVec 64}
    {branchTaken : Bool} (hentry : BHT.tag lastPc' ≠ BHT.tag lastPc)
    (hslot : BTB.tag lastPc' ≠ BTB.tag lastPc)
    (h : b.updateBranchPrediction p lastPc' pc branchTaken = some (b', p')) :
    potential lastPc target outcome b' = potential lastPc target outcome b := by
  obtain ⟨⟨b₁, p₁⟩, hcompare, hb'⟩ := Option.bind_eq_some_iff.1 h
  cases hb'
  have hfind : b₁.btb.find lastPc = b.btb.find lastPc := by
    rcases comparePrediction_btb hcompare with hbtb | hbtb
    · rw [hbtb]
    · rw [hbtb, BTB.find_update, if_neg hslot.symm]
  have hget : (b₁.bht.setEntry lastPc'
      ((b₁.bht.getEntry lastPc').updateHistory branchTaken)).getEntry lastPc =
        b.bht.getEntry lastPc := by
    rw [BHT.getEntry, BHT.table_setEntry, if_neg hentry.symm, comparePrediction_bht hcompare]
    rfl
  unfold potential slotDebt
  simp only [hget, hfind]

end Potential

/-! ### Main result -/

section Learns

variable {lastPc target : BitVec 64} {outcome : BitVec 3 → Bool}

/-- All penalties of a run are paid for by the potential at its start. -/
theorem Executions.potential_le {b₀ : BranchPredictor} {r : RawPredictor} {cost : ℕ}
    (h : Executions lastPc target outcome b₀.raw r cost) : ∃ b : BranchPredictor, b.raw = r ∧
      cost + 3 * potential lastPc target outcome b ≤ 3 * potential lastPc target outcome b₀ := by
  induction h with
  | start => exact ⟨b₀, rfl, by omega⟩
  | execute h fallThrough hb ih =>
    obtain ⟨b, rfl, hcost⟩ := ih
    rw [raw_takes, raw_updateBranchPrediction] at hb
    obtain ⟨⟨b', p'⟩, hupdate, heq⟩ := Option.map_eq_some_iff.1 hb
    cases heq
    have hpc : outcome (b.bht.getEntry lastPc).history = true →
        (if outcome (b.bht.getEntry lastPc).history then target else fallThrough) = target :=
      fun htaken => if_pos htaken
    have hpaid := potential_update hpc hupdate
    exact ⟨b', rfl, by simp only [id]; omega⟩
  | branch h hentry hslot hb ih =>
    obtain ⟨b, rfl, hcost⟩ := ih
    rw [raw_updateBranchPrediction] at hb
    obtain ⟨⟨b', p'⟩, hupdate, heq⟩ := Option.map_eq_some_iff.1 hb
    cases heq
    exact ⟨b', rfl, by rwa [potential_other hentry hslot hupdate]⟩
  | jump h ras hslot ih =>
    obtain ⟨b, rfl, hcost⟩ := ih
    refine ⟨{ b with ras := ras, btb := _ }, rfl, ?_⟩
    have hsame : slotDebt lastPc target _ = slotDebt lastPc target b.btb :=
      if_congr (by rw [hslot]; rfl) rfl rfl
    unfold potential at hcost ⊢
    rwa [hsame]

/-- A branch that follows the history of its entry pays for at most seventeen mispredictions, however
often it is executed; no access fails, and all histories and counters stay in range. -/
theorem branch_learns {b₀ r : RawPredictor} {cost : ℕ} (hrange : b₀.InRange)
    (h : Executions lastPc target outcome b₀ r cost) :
    cost ≤ 17 * 3 ∧ r.InRange ∧ ∀ p : Pipeline, p.Valid → ∀ lastPc pc branchTaken,
      ∃ x, r.updateBranchPrediction p lastPc pc branchTaken = some x := by
  obtain ⟨b, rfl⟩ := RawPredictor.inRange_iff.1 hrange
  obtain ⟨b', rfl, hcost⟩ := h.potential_le
  have hstart : potential lastPc target outcome b ≤ 17 := potential_le_seventeen b
  refine ⟨by omega, RawPredictor.inRange_iff.2 ⟨b', rfl⟩, fun p hp lastPc pc branchTaken => ?_⟩
  obtain ⟨b₁, p₁, hupdate, -⟩ :=
    BranchPredictor.charges_updateBranchPrediction b' hp lastPc pc branchTaken
  exact ⟨(b₁.raw, p₁), by rw [raw_updateBranchPrediction, hupdate]; rfl⟩

end Learns

/-- The first execution of a branch that is taken every other time, from the empty predictor. -/
theorem branch_learns_alternating : ∃ r : RawPredictor,
    Executions 0x100 0x200 (fun h => !h.getLsbD 2) BranchPredictor.init.raw r 3 ∧ r.InRange := by
  have hrange : BranchPredictor.init.raw.InRange := RawPredictor.inRange_iff.2 ⟨_, rfl⟩
  obtain ⟨r, p, hr, hcost⟩ : ∃ r p, BranchPredictor.init.raw.updateBranchPrediction (.empty 0) 0x100
      0x200 true = some (r, p) ∧ addedCycles (.empty 0) p = 3 := ⟨_, _, rfl, by decide⟩
  have hrun : Executions 0x100 0x200 (fun h => !h.getLsbD 2) BranchPredictor.init.raw r
      (0 + addedCycles (.empty 0) p) := .execute .start 0x104 hr
  rw [hcost] at hrun
  exact ⟨r, hrun, (branch_learns hrange hrun).2.1⟩

end Vcil.Timing
