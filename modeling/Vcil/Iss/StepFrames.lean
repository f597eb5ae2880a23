import Vcil.Iss.Counters
import Vcil.Iss.FloatEffects
import Vcil.Iss.Privilege
import Vcil.Iss.TrapNesting
import Vcil.Iss.Virtualization

/-!
# What a step keeps

A step is an instruction, the entry into a handler that may follow, and the bookkeeping of time.  A
relation between harts that allows for the last two holds from the begin of a step to its end if it
holds of the instruction.

* `DirtyFrame R`: `R` allows for what the floating-point instructions change, and for `mstatus` as
  they mark the context dirty;
* `settled`: what the bookkeeping leaves alone;
* `StepFrame R`, `runStep_frame`: the rule for a step.
-/

-- a case is a chain of ten calls, each an instance
set_option synthInstance.maxSize 512

namespace Vcil.Iss

open Fallible

variable {W : Type}

/-! ### Floating-point instructions -/

/-- `R` allows for what the floating-point instructions change, if `mstatus` is only written to mark
the context dirty. -/
class DirtyFrame (R : Hart W → Hart W → Prop) : Prop extends IsPreorder (Hart W) R where
  fpRegs : ∀ h fpRegs, R h { h with fpRegs := fpRegs }
  exceptionFlags : ∀ h flags, R h { h with softfloatExceptionFlags := flags }
  roundingMode : ∀ h rm, R h { h with softfloatRoundingMode := rm }
  fcsr : ∀ h fcsr, R h { h with csrs := { h.csrs with fcsr := fcsr } }
  marks : ∀ h h', (fpSetDirty : M W Unit) h = .ok () h' → R h h'

section Float

variable {R : Hart W → Hart W → Prop} [DirtyFrame R]

theorem fpSetDirty_eq (h : Hart W) : ∃ h', (fpSetDirty : M W Unit) h = .ok () h' := ⟨_, rfl⟩

theorem respects_fpSetDirty : Respects R (fpSetDirty : M W Unit) := by
  constructor
  intro h
  obtain ⟨h', hset⟩ := fpSetDirty_eq h
  rw [hset]
  exact DirtyFrame.marks h h' hset

theorem respects_setExceptionFlags (flags : Byte) :
    Respects R (setExceptionFlags flags : M W Unit) :=
  .modify fun h => DirtyFrame.exceptionFlags h flags

theorem respects_fpUpdateExceptionFlags : Respects R (fpUpdateExceptionFlags : M W Unit) := by
  have hflags (flags : Byte) : Respects R (setCsrs fun c =>
      { c with fcsr := Fcsr.fflags.put (Fcsr.fflags.get c.fcsr ||| flags.setWidth 5) c.fcsr } :
      M W Unit) := .modify fun h => DirtyFrame.fcsr h _
  have hset := respects_setExceptionFlags (R := R)
  have hdirty := respects_fpSetDirty (R := R)
  unfold fpUpdateExceptionFlags
  infer_instance

/-- A floating-point instruction keeps what these changes keep. -/
theorem respects_execFloat [IntegerFrame R] (env : Env W) (i : Instruction) (op : Opcode) :
    Respects R (execFloat env i op) := by
  have hdirty := respects_fpSetDirty (R := R)
  have hupdate := respects_fpUpdateExceptionFlags (R := R)
  have hfinish : Respects R (fpFinishInstr : M W Unit) := by
    unfold fpFinishInstr
    infer_instance
  have hrounding : Respects R (modify fun h => { h with softfloatRoundingMode := roundingMode h } :
    M W Unit) := .modify fun h => DirtyFrame.roundingMode h _
  have hsetup : Respects R (fpSetupRm : M W Unit) := by
    unfold fpSetupRm
    infer_instance
  have hsoftfloat {α : Type} (f : BitVec 3 → α × Byte) : Respects R (softfloat f : M W α) := by
    have hset := respects_setExceptionFlags (R := R)
    unfold softfloat
    infer_instance
  have hwrite {n : ℕ} (u : SoftFloat n) (r : RegIdx) (v : BitVec n) :
      Respects R (fpWrite u r v : M W Unit) := .modify fun h => DirtyFrame.fpRegs h _
  unfold execFloat
  split <;> first
    | infer_instance
    | (unfold fpBinary; infer_instance)
    | (unfold fpSqrt; infer_instance)
    | (unfold fpFused; infer_instance)
    | (unfold fpSelect fpBefore; infer_instance)
    | (unfold fpToInt; infer_instance)
    | (unfold fpOfInt; infer_instance)
    | (unfold fpConvert; infer_instance)
    | (unfold fpSign; infer_instance)
    | (unfold fpCompare; infer_instance)
    | (unfold flw; infer_instance)
    | (unfold fsw; infer_instance)
    | (unfold fld; infer_instance)
    | (unfold fsd; infer_instance)
    | (unfold fmvWX; infer_instance)
    | (unfold fmvXW; infer_instance)

end Float

/-! ### CSR writes -/

/-- Only writes through its addresses change `mstatus`. -/
theorem setCsrValue_privilege {env : Env W} (hmaps : MapsCsrs env) {addr : CsrAddr}
    (haddr : ¬NamesStatus env addr) (v : Word) :
    Respects (Unchanged privilege) (setCsrValue env addr v) := by
  have hkeeps {f : Csrs → Csrs} (hf : ∀ c, (f c).mstatus = c.mstatus) :
      Respects (Unchanged privilege) (setCsrs f : M W Unit) :=
    .modify fun h => congrArg (Prod.mk h.prv) (hf h.csrs)
  have hdefault (c : Csrs) : (env.defaultWrite32 c addr v).mstatus = c.mstatus := by
    have hsame := congrArg Csrs.mstatus (hmaps.write c c.mstatus addr v haddr)
    exact hsame
  have hwrite := hkeeps hdefault
  have hsatp := hkeeps (f := fun c => { c with satp := writeMasked c.satp v env.masks.satp })
    fun _ => rfl
  unfold setCsrValue
  cases hname : csrName env addr
  case mstatus => exact absurd (.inl hname) haddr
  case sstatus => exact absurd (.inr (.inl hname)) haddr
  case ustatus => exact absurd (.inr (.inr hname)) haddr
  all_goals first
    | infer_instance
    | exact hkeeps fun _ => rfl

/-! ### The bookkeeping of time -/

/-- What the bookkeeping after an instruction leaves alone. -/
def settled (h : Hart W) : PrivilegeLevel × Word × Csrs :=
  (h.prv, h.pc, { h.csrs with mip := 0, instret := 0 })

theorem respects_afterInstr_settled (env : Env W) (b : Build) :
    Respects (OnHart (Unchanged settled)) (afterInstr env b) := by
  have hworld (f : World W → World W) : Respects (Unchanged settled) (onWorld f) :=
    .modify fun _ => rfl
  have hcounter (n : ℤ) : Respects (Unchanged settled) (setLrScCounter n : M W Unit) :=
    .modify fun _ => rfl
  have hunlock : Respects (Unchanged settled) (access env.atomicUnlock) := by
    constructor
    intro h
    unfold access
    split <;> rfl
  have hassert (c : Hart W → Bool) : Respects (Unchanged settled) (assert c) := by
    unfold assert
    infer_instance
  have hrelease : Respects (Unchanged settled) (releaseLrScReservation env) := by
    unfold releaseLrScReservation
    infer_instance
  have hfinish : Respects (Unchanged settled) (modify finishInstr : M W Unit) :=
    .modify fun _ => rfl
  have hinstr : Respects (Unchanged settled) (modify addInstr : M W Unit) := .modify fun _ => rfl
  have hcycles (n : ℕ) : Respects (Unchanged settled) (modify (addCycles n) : M W Unit) :=
    .modify fun _ => rfl
  have hset (n : BitVec 64) : Respects (Unchanged settled) (modify (setCycles n) : M W Unit) :=
    .modify fun _ => rfl
  have hcount (op : Opcode) : Respects (Unchanged settled) (countInstr env op) := by
    unfold countInstr countLrSc
    infer_instance
  have hquantum (n : ℕ) : Respects (Unchanged settled) (advanceQuantum env n) := by
    unfold advanceQuantum
    infer_instance
  have hadvance (n : BitVec 64) : Respects (Unchanged settled) (advanceCycles env n) := by
    unfold advanceCycles
    infer_instance
  unfold afterInstr performanceAndSyncUpdate
  cases b <;> (dsimp only; infer_instance)

theorem settled_csrs {h h' : Hart W} (hsettled : Unchanged settled h h') :
    h'.csrs = { h.csrs with mip := h'.csrs.mip, instret := h'.csrs.instret } :=
  congrArg (fun s => { s.2.2 with mip := h'.csrs.mip, instret := h'.csrs.instret }) hsettled

/-! ### Steps -/

/-- `R` allows for what surrounds an instruction: the bookkeeping, the record of an interrupt whose
entry fails, and the entry into a handler. -/
class StepFrame (R : Hart W → Hart W → Prop) : Prop extends IsPreorder (Hart W) R where
  settled : ∀ {h h'}, Unchanged settled h h' → R h h'
  recorded : ∀ (h : Hart W) (m : Mode) cause w,
    R h (({ h with lrScCounter := 0, csrs := h.csrs.setCause cause m } : Hart W).setWorld w)
  entry : ∀ {env : Env W} {m pc h h'}, Entry env m pc h h' → R h h'

section Steps

variable {R : Hart W → Hart W → Prop} [StepFrame R] {env : Env W} {b : Build} {t t' : TimedHart W}

/-- An interrupt that fails has been recorded at most. -/
theorem deliverInterrupt_recorded {e : Raise} {h h' : Hart W}
    (hr : deliverInterrupt env h = .error e h') : R h h' := by
  obtain ⟨i, n, htarget, hprepare | ⟨h₁, hprepare, hswitch⟩⟩ := deliverInterrupt_error hr
  · obtain rfl := prepareInterrupt_error htarget hprepare
    exact refl_of R _
  · obtain ⟨cause, rfl⟩ := prepareInterrupt_ok htarget hprepare
    obtain ⟨w, -, rfl⟩ := access_eq_error.1 (switchToTrapHandler_unlock hswitch)
    exact StepFrame.recorded h n cause w

theorem takeStep_frame
    (hexec : R t.hart (final (execStep env b { t with hart := startInstr t.hart })).hart)
    (hr : takeStep env b { t with hart := startInstr t.hart } = .ok () t') : R t.hart t'.hart := by
  rcases takeStep_cases hr with ⟨t₁, h₁, hok, hdeliver, rfl⟩ |
    ⟨t₁, e, h₁, h₂, hok, hdeliver, hcatch, rfl⟩ | ⟨t₁, e, h₁, herror, hcatch, rfl⟩
  · rw [hok] at hexec
    rcases deliverInterrupt_entry hdeliver with ⟨-, rfl⟩ | ⟨n, he⟩
    · exact hexec
    · exact trans_of R hexec (StepFrame.entry he)
  · rw [hok] at hexec
    obtain ⟨n, he⟩ := catchTrap_entry hcatch
    exact trans_of R hexec (trans_of R (deliverInterrupt_recorded hdeliver) (StepFrame.entry he))
  · rw [herror] at hexec
    obtain ⟨n, he⟩ := catchTrap_entry hcatch
    exact trans_of R hexec (StepFrame.entry he)

/-- What holds of the instruction holds of the step. -/
theorem runStep_frame
    (hexec : R t.hart (final (execStep env b { t with hart := startInstr t.hart })).hart)
    (hr : runStep env b t = .ok () t') : R t.hart t'.hart := by
  rcases runStep_ok hr with ⟨-, rfl⟩ | ⟨-, t₁, htake, hafter⟩
  · exact StepFrame.settled rfl
  · have hsettled := (respects_afterInstr_settled env b).rel t₁
    rw [hafter] at hsettled
    exact trans_of R (takeStep_frame hexec htake) (StepFrame.settled hsettled)

/-- An instruction is fetched, and then executed. -/
theorem execStep_frame [IntegerFrame R] [DecodeFrame R]
    (hexec : ∀ h, fetch env (startInstr t.hart) = .ok () h →
      R h (final (exec env b h.instr h.op { t with hart := h })).hart) :
    R t.hart (final (execStep env b { t with hart := startInstr t.hart })).hart := by
  have hstart : R t.hart (startInstr t.hart) := StepFrame.settled rfl
  have hfetch := (respects_fetch : Respects R (fetch env)).rel (startInstr t.hart)
  rw [execStep_eq]
  cases hf : fetch env (startInstr t.hart) with
  | error e h =>
    rw [hf] at hfetch
    exact trans_of R hstart hfetch
  | ok _ h =>
    rw [hf] at hfetch
    exact trans_of R hstart (trans_of R hfetch (hexec h hf))

end Steps

end Vcil.Iss
