import Vcil.Iss.Parts
import Vcil.Iss.RunStep

/-!
# What an instruction leaves alone

A relation between the hart before and after that allows for every change of the registers, the
CSRs, `pc` and the platform is respected by every instruction but the three returns.

* `Frame R`, `LrScFrame R`: the changes `R` has to allow for;
* `TimedFrame R S`: `S` does so with the pipeline timing model, and allows for its calls;
* `respects_exec`, `respects_fetch`: the instructions, by their parts;
* `Unchanged f`: the relations that only say that `f` keeps its value.
-/

namespace Vcil.Iss

open Fallible
open Timing (Pipeline)

variable {W α : Type}

/-- `R` allows for the changes an instruction other than a return can make. -/
class Frame (R : Hart W → Hart W → Prop) : Prop extends IsPreorder (Hart W) R where
  regs : ∀ h regs, R h { h with regs := regs }
  fpRegs : ∀ h fpRegs, R h { h with fpRegs := fpRegs }
  pc : ∀ h pc, R h { h with pc := pc }
  csrs : ∀ h csrs, R h { h with csrs := csrs }
  decoded : ∀ h op instr, R h { h with op := op, instr := instr }
  status : ∀ h status, R h { h with status := status }
  shallExit : ∀ h shallExit, R h { h with shallExit := shallExit }
  exceptionFlags : ∀ h flags, R h { h with softfloatExceptionFlags := flags }
  roundingMode : ∀ h rm, R h { h with softfloatRoundingMode := rm }
  niceUart : ∀ h u op, R h (setNiceUart h u op)
  outside : ∀ h w, R h { h with outside := w }

/-- `R` allows for changes of the LR/SC window too. -/
class LrScFrame (R : Hart W → Hart W → Prop) : Prop extends Frame R where
  lrScCounter : ∀ h n, R h { h with lrScCounter := n }

/-! The same by kinds of instructions. -/

/-- `R` allows for what an instruction of any kind can change. -/
class IntegerFrame (R : Hart W → Hart W → Prop) : Prop extends IsPreorder (Hart W) R where
  regs : ∀ h regs, R h { h with regs := regs }
  pc : ∀ h pc, R h { h with pc := pc }
  status : ∀ h status, R h { h with status := status }
  shallExit : ∀ h shallExit, R h { h with shallExit := shallExit }
  niceUart : ∀ h u op, R h (setNiceUart h u op)
  world : ∀ h w, R h (h.setWorld w)

/-- `R` allows for what the floating-point instructions change. -/
class FloatFrame (R : Hart W → Hart W → Prop) : Prop where
  fpRegs : ∀ h fpRegs, R h { h with fpRegs := fpRegs }
  exceptionFlags : ∀ h flags, R h { h with softfloatExceptionFlags := flags }
  roundingMode : ∀ h rm, R h { h with softfloatRoundingMode := rm }
  fcsr : ∀ h fcsr, R h { h with csrs := { h.csrs with fcsr := fcsr } }
  mstatus : ∀ h mstatus, R h { h with csrs := { h.csrs with mstatus := mstatus } }

/-- `R` allows for every change of the CSRs. -/
class CsrFrame (R : Hart W → Hart W → Prop) : Prop where
  csrs : ∀ h csrs, R h { h with csrs := csrs }

/-- `R` allows for what reading a CSR stores. -/
class CounterFrame (R : Hart W → Hart W → Prop) : Prop where
  time : ∀ h time, R h { h with csrs := { h.csrs with time := time } }
  cycle : ∀ h cycle, R h { h with csrs := { h.csrs with cycle := cycle } }

/-- `R` allows for changes of the LR/SC window. -/
class WindowFrame (R : Hart W → Hart W → Prop) : Prop where
  lrScCounter : ∀ h n, R h { h with lrScCounter := n }

/-- `R` allows for what the entry into a handler and the return from it change. -/
class HandlerFrame (R : Hart W → Hart W → Prop) : Prop extends WindowFrame R where
  prv : ∀ h prv, R h { h with prv := prv }
  csrs : ∀ h mstatus mepc mcause mtval sepc scause stval uepc ucause utval, R h { h with
    csrs := { h.csrs with
      mstatus := mstatus, mepc := mepc, mcause := mcause, mtval := mtval, sepc := sepc,
      scause := scause, stval := stval, uepc := uepc, ucause := ucause, utval := utval } }

/-- `R` allows for the decoding of another instruction. -/
class DecodeFrame (R : Hart W → Hart W → Prop) : Prop where
  decoded : ∀ h op instr, R h { h with op := op, instr := instr }

section Kinds

variable {R : Hart W → Hart W → Prop}

instance [Frame R] : IntegerFrame R where
  regs := Frame.regs
  pc := Frame.pc
  status := Frame.status
  shallExit := Frame.shallExit
  niceUart := Frame.niceUart
  world h w := trans_of R (Frame.csrs h { h.csrs with mip := w.mip }) (Frame.outside _ w.rest)

instance [Frame R] : FloatFrame R where
  fpRegs := Frame.fpRegs
  exceptionFlags := Frame.exceptionFlags
  roundingMode := Frame.roundingMode
  fcsr _ _ := Frame.csrs _ _
  mstatus _ _ := Frame.csrs _ _

instance [Frame R] : CsrFrame R := ⟨Frame.csrs⟩

instance [CsrFrame R] : CounterFrame R where
  time _ _ := CsrFrame.csrs _ _
  cycle _ _ := CsrFrame.csrs _ _

instance [LrScFrame R] : WindowFrame R := ⟨LrScFrame.lrScCounter⟩

instance [Frame R] : DecodeFrame R := ⟨Frame.decoded⟩

instance [CsrFrame R] (f : Csrs → Csrs) : Respects R (setCsrs f) :=
  .modify fun h => CsrFrame.csrs h _

instance [WindowFrame R] (n : ℤ) : Respects R (setLrScCounter n) :=
  .modify fun h => WindowFrame.lrScCounter h n

end Kinds

section Primitives

variable {R : Hart W → Hart W → Prop} [IntegerFrame R]

instance (r : RegIdx) : Respects R (reg r : M W Word) := by
  unfold reg
  infer_instance

instance (r : RegIdx) (v : Word) : Respects R (setReg r v) :=
  .modify fun h => IntegerFrame.regs h _

instance (f : World W → World W) : Respects R (onWorld f) :=
  .modify fun h => IntegerFrame.world h _

instance (f : Access W α) : Respects R (access f) := by
  constructor
  intro h
  have hw := IntegerFrame.world (R := R) h (f h.memView h.world).2
  unfold access
  split <;> simp_all [final]

instance (reason : ExceptionCode) (mtval : BitVec 64) :
    Respects R (raiseTrap reason mtval : M W α) := by
  unfold raiseTrap
  infer_instance

instance (e : Option SimulationTrap) : Respects R (raiseIfSome e : M W Unit) := by
  cases e <;> (unfold raiseIfSome; infer_instance)

instance : Respects R (raiseIllegalInstruction : M W α) := by
  unfold raiseIllegalInstruction
  infer_instance

instance (c : Hart W → Bool) : Respects R (illegalIf c) := by
  unfold illegalIf
  infer_instance

instance (x : IsaExt) : Respects R (requireIsa x : M W Unit) := by
  unfold requireIsa
  infer_instance

instance (c : Hart W → Bool) : Respects R (assert c) := by
  unfold assert
  infer_instance

instance [WindowFrame R] (env : Env W) : Respects R (releaseLrScReservation env) := by
  unfold releaseLrScReservation
  infer_instance

instance (env : Env W) (n : ℕ) (isLoad : Bool) (addr : Word) :
    Respects R (trapCheckAddrAlignment env n isLoad addr) := by
  unfold trapCheckAddrAlignment
  infer_instance

instance (env : Env W) : Respects R (trapCheckPcAlignment env) := by
  unfold trapCheckPcAlignment
  infer_instance

end Primitives

/-! ### Instructions -/

section Instructions

variable {R : Hart W → Hart W → Prop} {env : Env W}

instance [IntegerFrame R] (op : Op) (x y : Word) : Respects R (niceCall env op x y) := by
  constructor
  intro h
  unfold niceCall
  by_cases hu : usesUart env op = true
  · rw [if_pos hu]
    dsimp only
    split
    · exact trans_of R (IntegerFrame.world h _) (IntegerFrame.niceUart _ _ _)
    · exact IntegerFrame.world h _
  · rw [if_neg hu]
    exact refl_of R h

instance [IntegerFrame R] [DecodeFrame R] : Respects R (loadInstr env) := by
  constructor
  intro h
  have hload := (inferInstance : Respects R (access (env.loadInstr h.pc))).rel h
  unfold loadInstr
  split <;> rename_i heq <;> rw [heq] at hload
  · exact trans_of R hload (DecodeFrame.decoded _ _ _)
  · exact trans_of R hload (DecodeFrame.decoded _ _ _)
  · exact hload

theorem respects_fetchPart [IntegerFrame R] [DecodeFrame R] {m : M W α} (h : FetchPart env α m) :
    Respects R m := by
  cases h with
  | get => infer_instance
  | raise e hlevel => infer_instance
  | loadInstr => infer_instance
  | decode f =>
    have hpc (h : Hart W) := IntegerFrame.pc (R := R) h (f h).2.2
    exact .modify fun h => trans_of R (hpc h) (DecodeFrame.decoded _ (f h).1 (f h).2.1)

theorem respects_fetch [IntegerFrame R] [DecodeFrame R] : Respects R (fetch env) :=
  made_fetch.respects respects_fetchPart

variable [LrScFrame R]

theorem respects_quiet {m : M W α} (h : Quiet env α m) : Respects R m := by
  cases h with
  | get => infer_instance
  | csrs f hf => infer_instance
  | defaultWrite addr v haddr => infer_instance
  | exceptionFlags flags => exact .modify fun h => Frame.exceptionFlags h flags
  | roundingMode => exact .modify fun h => Frame.roundingMode h _
  | lrScCounter n => infer_instance
  | ebreak => exact .modify fun h => Frame.status h _
  | abort e htrap hlevel => infer_instance

theorem respects_keep {m : M W α} (h : Keep env α m) : Respects R m := by
  cases h with
  | quiet h => exact respects_quiet h
  | trap e => infer_instance
  | ecallTrap =>
    unfold ecallTrap unknownPrivilegeLevel
    infer_instance
  | read f hf => infer_instance
  | mtime => infer_instance
  | jump f =>
    have : Respects R (modify fun h => { h with pc := f h } : M W Unit) :=
      .modify fun h => Frame.pc h _
    infer_instance

theorem respects_free {m : M W α} (h : Free env α m) : Respects R m := by
  cases h with
  | quiet h => exact respects_quiet h
  | regs f => exact .modify fun h => Frame.regs h _
  | fpRegs f => exact .modify fun h => Frame.fpRegs h _
  | exit r => exact .modify fun h => trans_of R (Frame.regs h r.1) (Frame.shallExit _ _)
  | niceCall op x y => infer_instance
  | world f => infer_instance

theorem respects_part {m : M W α} (h : Part env α m) : Respects R m := by
  cases h with
  | keep h => exact respects_keep h
  | last h =>
    cases h with
    | store f hf => infer_instance
  | free h => exact respects_free h
  | amo f i regs => infer_instance

end Instructions

/-- `S` allows for what `R` allows of the hart, and for the calls of the pipeline timing model. -/
class TimedFrame (R : outParam (Hart W → Hart W → Prop)) (S : TimedHart W → TimedHart W → Prop) :
    Prop extends IsPreorder (TimedHart W) S where
  hart : ∀ t h, R t.hart h → S t { t with hart := h }
  call : ∀ t c p, c.Legal → t.pipeline.call c = some p → S t { t with pipeline := p }

section Builds

variable {R : Hart W → Hart W → Prop} {S : TimedHart W → TimedHart W → Prop} [TimedFrame R S]

instance (m : M W α) [hm : Respects R m] : Respects S (lift m) := by
  constructor
  intro t
  have hr := hm.rel t.hart
  unfold lift
  cases hmt : m t.hart <;> (rw [hmt] at hr; exact TimedFrame.hart t _ hr)

instance (call : Pipeline → Option Pipeline) [hcall : LegalCall call] :
    Respects S (charge call : PM W Unit) := by
  constructor
  intro t
  cases hp : call t.pipeline with
  | some p =>
    obtain ⟨c, hlegal, hc⟩ := hcall.legal _ _ hp
    rw [charge_of_some hp]
    exact TimedFrame.call t c p hlegal hc
  | none =>
    rw [charge_of_none hp]
    exact refl_of S t

variable {env : Env W}

theorem Timed.respects {P : (α : Type) → M W α → Prop}
    (hP : ∀ {α : Type} {m : M W α}, P α m → Respects R m)
    (hamo : ∀ i (t : TimedHart W), S t { t with pipeline := env.amoCharge i t.pipeline })
    {m : PM W α} (h : Timed env P α m) : Respects S m := by
  cases h with
  | lift h =>
    have := hP h
    infer_instance
  | get => infer_instance
  | charge call h => infer_instance
  | amoCharge i => exact ⟨hamo i⟩

/-- The instructions other than the returns. -/
theorem respects_exec [LrScFrame R] (b : Build) (i : Instruction) {op : Opcode} (hop : ¬IsReturn op)
    (hamo : ∀ i (t : TimedHart W), S t { t with pipeline := env.amoCharge i t.pipeline }) :
    Respects S (exec env b i op) :=
  (made_exec b i hop).respects fun h => h.respects respects_part hamo

end Builds

/-- `R`, between the harts of two states. -/
def OnHart (R : Hart W → Hart W → Prop) (t t' : TimedHart W) : Prop := R t.hart t'.hart

instance {R : Hart W → Hart W → Prop} [IsPreorder (Hart W) R] : TimedFrame R (OnHart R) where
  refl t := refl_of R t.hart
  trans _ _ _ h₁ h₂ := trans_of R h₁ h₂
  hart _ _ h := h
  call t _ _ _ _ := refl_of R t.hart

theorem final_lift (m : M W α) (t : TimedHart W) : (final (lift m t)).hart = final (m t.hart) := by
  unfold lift
  cases m t.hart <;> rfl

theorem read_hart {r : RegIdx} {v : Word} {t t' : TimedHart W} (hr : read r t = .ok v t') :
    v = t.hart.regs r ∧ t'.hart = t.hart := by
  obtain ⟨_, t₁, haccess, hr⟩ := bind_eq_ok.1 hr
  obtain ⟨h', hreg, rfl⟩ := lift_ok hr
  obtain ⟨rfl, rfl⟩ := reg_eq_ok.1 hreg
  rw [charge_hart haccess]
  exact ⟨rfl, rfl⟩

/-- What the parts do to the hart, the timed computation does. -/
theorem Timed.ends {env : Env W} {P : (α : Type) → M W α → Prop} {R : Hart W → Hart W → Prop}
    [IsPreorder (Hart W) R] {E : Raise → Hart W → Hart W → Prop} (hE : ∀ h, E .assertion h h)
    (hP : ∀ {α : Type} {m : M W α}, P α m → Ends R E m) {m : PM W α} (h : Timed env P α m) :
    Ends (OnHart R) (fun e t t' => E e t.hart t'.hart) m := by
  cases h with
  | lift h =>
    constructor
    · intro t a t' hr
      obtain ⟨h', hr', rfl⟩ := lift_ok hr
      exact (hP h).ok hr'
    · intro t e t' hr
      obtain ⟨h', hr', rfl⟩ := lift_error hr
      exact (hP h).error hr'
  | get =>
    constructor
    · intro t a t' hr
      cases hr
      exact refl_of R t.hart
    · intro t e t' hr
      cases hr
  | charge call h =>
    constructor
    · intro t a t' hr
      rw [OnHart, charge_hart hr]
      exact refl_of R t.hart
    · intro t e t' hr
      obtain ⟨rfl, rfl⟩ := charge_error hr
      exact hE _
  | amoCharge i =>
    constructor
    · intro t a t' hr
      cases hr
      exact refl_of R t.hart
    · intro t e t' hr
      cases hr

/-! ### Values that are kept -/

/-- `f` has the same value after as before. -/
def Unchanged {β : Type} (f : Hart W → β) (h h' : Hart W) : Prop := f h' = f h

instance {β : Type} (f : Hart W → β) : IsPreorder (Hart W) (Unchanged f) where
  refl _ := rfl
  trans _ _ _ h₁ h₂ := h₂.trans h₁

instance : Frame (Unchanged (W := W) Hart.prv) where
  regs _ _ := rfl
  fpRegs _ _ := rfl
  pc _ _ := rfl
  csrs _ _ := rfl
  decoded _ _ _ := rfl
  status _ _ := rfl
  shallExit _ _ := rfl
  exceptionFlags _ _ := rfl
  roundingMode _ _ := rfl
  niceUart _ _ op := by cases op <;> rfl
  outside _ _ := rfl

instance : LrScFrame (Unchanged (W := W) Hart.prv) where
  lrScCounter _ _ := rfl

instance : Frame (Unchanged (W := W) Hart.lrScCounter) where
  regs _ _ := rfl
  fpRegs _ _ := rfl
  pc _ _ := rfl
  csrs _ _ := rfl
  decoded _ _ _ := rfl
  status _ _ := rfl
  shallExit _ _ := rfl
  exceptionFlags _ _ := rfl
  roundingMode _ _ := rfl
  niceUart _ _ op := by cases op <;> rfl
  outside _ _ := rfl

end Vcil.Iss
