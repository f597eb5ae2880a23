import Vcil.Iss.BareMetal
import Vcil.Iss.CsrInstr
import Vcil.Iss.FloatEffects

/-!
# Tracking the floating-point context

An operating system that switches the floating-point context lazily relies on `mstatus.FS`: an
instruction that changes the context should trap while it is off, and leave it dirty otherwise.

* `ChangesFloat`, `FloatTracked`: an instruction that changes the context, and what it should do;
* `MarksDirty`: the instructions that take care of it, all but the loads and the CSR accesses;
* `floatTracked_iff`: those that do not are right only if the context is dirty already.
-/

namespace Vcil.Iss

open Fallible

variable {W : Type} (env : Env W) (b : Build) (i : Instruction) (op : Opcode) (t : TimedHart W)

/-- The instruction changes a floating-point register or `fcsr`. -/
def ChangesFloat : Prop := ¬SameFloat t.hart (final (exec env b i op t)).hart

/-- The context is not off before the instruction, and dirty after it. -/
structure FloatTracked : Prop where
  on : Mstatus.fs.get t.hart.csrs.mstatus ≠ fsOff
  dirty : Dirty (final (exec env b i op t)).hart

/-- Neither a load of a floating-point register nor a CSR access. -/
def MarksDirty : Prop := op ≠ .flw ∧ op ≠ .fld ∧ ¬IsCsr op

section Tracked

variable {env b i op t}

/-- An instruction that takes care of the context and changes it is a computation. -/
theorem isFloat_of_changes (hchanges : ChangesFloat env b i op t) (hmarks : MarksDirty op) :
    IsFloat op = true ∧ IsFloatAccess op = false := by
  obtain ⟨hflw, hfld, hcsr⟩ := hmarks
  refine ⟨?_, ?_⟩
  · by_contra hfloat
    by_cases hreturn : IsReturn op
    · exact hchanges (sameFloat_of_state (exec_return_state env b i t hreturn))
    · exact hchanges (sameFloat_of_state (floatState_of_context
        (exec_keeps_context env b i t (by simpa using hfloat) hcsr hreturn)))
  · by_contra haccess
    rcases isFloatAccess_cases (by simpa using haccess) with (hop | hop) | hop
    · exact hflw hop
    · exact hfld hop
    · exact hchanges (sameFloat_of_state (floatState_of_context
        (exec_store_context env b i t hop)))

/-- A computation that changes the context marks it dirty. -/
theorem tracked_of_changes (hchanges : ChangesFloat env b i op t) (hfloat : IsFloat op = true)
    (haccess : IsFloatAccess op = false) : FloatTracked env b i op t := by
  have htracks := execFloat_tracks env i hfloat haccess
  unfold ChangesFloat at hchanges
  rw [exec_float env b i hfloat, final_lift] at hchanges
  suffices h : Mstatus.fs.get t.hart.csrs.mstatus ≠ fsOff ∧
      Dirty (final (execFloat env i op t.hart)) by
    refine ⟨h.1, ?_⟩
    rw [exec_float env b i hfloat, final_lift]
    exact h.2
  cases hr : execFloat env i op t.hart with
  | error e h' =>
    rw [hr, htracks.error _ _ _ hr] at hchanges
    exact absurd ⟨rfl, rfl⟩ hchanges
  | ok _ h' =>
    have hflags : t.hart.softfloatExceptionFlags = 0 := by
      by_contra hflags
      rcases htracks.flagged _ hflags with hillegal | hassert
      · cases hillegal.symm.trans hr
      · cases hassert.symm.trans hr
    rw [hr] at hchanges
    refine ⟨fun hoff => ?_, ?_⟩
    · cases (htracks.off _ hflags hoff).symm.trans hr
    · exact (htracks.ok _ _ hflags hr).dirty.resolve_left hchanges

/-- A load or CSR access that changes the context leaves `mstatus` alone. -/
theorem mstatus_of_changes (hdefault : DefaultKeepsFcsr env) (hchanges : ChangesFloat env b i op t)
    (hmarks : ¬MarksDirty op) :
    (final (exec env b i op t)).hart.csrs.mstatus = t.hart.csrs.mstatus := by
  by_cases hload : op = .flw ∨ op = .fld
  · exact congrArg (·.2.1) (exec_load_status env b i t hload)
  · have hcsr : IsCsr op := by
      by_contra hcsr
      exact hmarks ⟨fun hop => hload (.inl hop), fun hop => hload (.inr hop), hcsr⟩
    rcases (closes_exec (R := Unchanged floatContext) b env i hcsr).rel t with
      hsame | ⟨_, t', ⟨_, ⟨-, v, rfl⟩, rfl⟩, hsame, heq⟩
    · exact congrArg (·.2.2.1) hsame
    · have hfinal : (final (exec env b i op t)).hart = final (setCsrValue env i.csr v t'.hart) := by
        rw [heq, final_lift]
      by_cases haddr : NamesFcsr env i.csr
      · obtain ⟨fcsr, hset, -⟩ := setCsrValue_fcsr haddr v t'.hart
        rw [hfinal, hset]
        exact congrArg (·.2.2.1) hsame
      · have hkeeps := (setCsrValue_keeps hdefault haddr v).rel t'.hart
        rw [← hfinal] at hkeeps
        exact absurd (sameFloat_of_state (hkeeps.trans (floatState_of_context hsame))) hchanges

end Tracked

/-- An instruction that changes the context tracks it exactly if it takes care of that or the
context is dirty already.  A computation raises an illegal-instruction trap while the context is
off, and changes nothing. -/
theorem floatTracked_iff (hdefault : DefaultKeepsFcsr env) :
    (ChangesFloat env b i op t → (FloatTracked env b i op t ↔ MarksDirty op ∨ Dirty t.hart)) ∧
      (IsFloat op = true → IsFloatAccess op = false → t.hart.softfloatExceptionFlags = 0 →
        Mstatus.fs.get t.hart.csrs.mstatus = fsOff → exec env b i op t =
          .error (.trap ⟨excIllegalInstr, t.hart.instr.data.setWidth 64⟩) t) := by
  refine ⟨fun hchanges => ?_, fun hfloat haccess hflags hoff => ?_⟩
  · by_cases hmarks : MarksDirty op
    · obtain ⟨hfloat, haccess⟩ := isFloat_of_changes hchanges hmarks
      exact iff_of_true (tracked_of_changes hchanges hfloat haccess) (.inl hmarks)
    · have hmstatus := mstatus_of_changes hdefault hchanges hmarks
      have hdirty : Dirty (final (exec env b i op t)).hart ↔ Dirty t.hart := by
        constructor <;> rintro ⟨hfs, hsd⟩
        · exact ⟨hmstatus ▸ hfs, hmstatus ▸ hsd⟩
        · exact ⟨hmstatus ▸ hfs, hmstatus ▸ hsd⟩
      constructor
      · exact fun htracked => .inr (hdirty.1 htracked.dirty)
      · rintro (h | h)
        · exact absurd h hmarks
        · refine ⟨?_, hdirty.2 h⟩
          rw [h.fs]
          decide
  · rw [exec_float env b i hfloat]
    exact lift_of_error ((execFloat_tracks env i hfloat haccess).off _ hflags hoff)

/-- A hart in machine mode, with the extensions F and U, on a memory of one instruction. -/
def floatHart (mstatus w : Word) : TimedHart BareMemory where
  hart := .reset machineMode 0x00100020 mstatus fun _ => w
  pipeline := .empty 0

/-- `CSRRWI x0, fcsr, 1` in a context that is dirty already. -/
theorem csrrwi_tracked : FloatTracked Env.bare .pipeline (.ofWord 0x0030D073) .csrrwi
    (floatHart 0x80006000 0x0030D073) := by
  refine ((floatTracked_iff _ _ _ _ _ fun _ _ _ _ => rfl).1 ?_).2 (.inr ⟨rfl, rfl⟩)
  rintro ⟨-, hfcsr⟩
  exact absurd hfcsr (by decide)

/-- `FLW f1, 0(x0)` while the context is off. -/
theorem flw_not_tracked : ¬(ChangesFloat Env.bare .plain (.ofWord 0x00002087) .flw
    (floatHart 0 0x00002087) → FloatTracked Env.bare .plain (.ofWord 0x00002087) .flw
      (floatHart 0 0x00002087)) := by
  intro hclaim
  refine (hclaim ?_).on rfl
  rintro ⟨hregs, -⟩
  exact absurd (congrFun hregs 1) (by decide)

end Vcil.Iss
