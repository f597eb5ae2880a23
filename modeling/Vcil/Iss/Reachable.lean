import Vcil.Iss.Frames

/-!
# Reachable states

The simulator starts with nothing pending in its pipeline timing model.  Whatever a program does
from there, and whatever traps it takes, the model shows a scoreboard.

* `Reachable`: the states after the steps of a run;
* `Reachable.valid`: their pipelines are valid.
-/

namespace Vcil.Iss

open Fallible

variable {W : Type}

/-! ### What a computation keeps -/

/-- Nothing is asked of the hart. -/
def AnyHart (_ _ : Hart W) : Prop := True

instance : LrScFrame (AnyHart (W := W)) where
  refl _ := trivial
  trans _ _ _ _ _ := trivial
  regs _ _ := trivial
  fpRegs _ _ := trivial
  pc _ _ := trivial
  csrs _ _ := trivial
  decoded _ _ _ := trivial
  status _ _ := trivial
  shallExit _ _ := trivial
  exceptionFlags _ _ := trivial
  roundingMode _ _ := trivial
  niceUart _ _ _ := trivial
  outside _ _ := trivial
  lrScCounter _ _ := trivial

instance {α : Type} (m : M W α) : Respects AnyHart m := ⟨fun _ => trivial⟩

def KeepsValid (t t' : TimedHart W) : Prop := t.pipeline.Valid → t'.pipeline.Valid

instance : TimedFrame AnyHart (KeepsValid (W := W)) where
  refl _ := id
  trans _ _ _ h₁ h₂ := h₂ ∘ h₁
  hart _ _ _ := id
  call _ _ _ hc hp hvalid := hvalid.call hc hp

/-- The cycles that `execute_amo` charges leave the timing model valid. -/
def Env.AmoValid (env : Env W) : Prop := ∀ i p, p.Valid → (env.amoCharge i p).Valid

/-! ### One step -/

section

variable {env : Env W} (hamo : env.AmoValid) (b : Build)

include hamo

theorem keepsValid_exec (i : Instruction) (op : Opcode) :
    Respects KeepsValid (exec env b i op) := by
  by_cases hop : IsReturn op
  · rw [exec_return env b i hop]
    infer_instance
  · exact respects_exec b i hop fun i t => hamo i t.pipeline

theorem keepsValid_execStep : Respects KeepsValid (execStep env b) := by
  cases b with
  | plain => exact inferInstanceAs (Respects _ (lift (execStepPlain env)))
  | pipeline =>
    have hexec (t : TimedHart W) :
        Respects KeepsValid (execPipeline env t.hart.instr t.hart.op) :=
      keepsValid_exec hamo .pipeline _ _
    show Respects KeepsValid (execStepPipeline env)
    unfold execStepPipeline
    infer_instance

theorem keepsValid_takeStep : Respects KeepsValid (takeStep env b) := by
  have hstep := keepsValid_execStep hamo b
  exact .tryCatch inferInstance fun _ => inferInstance

theorem keepsValid_runStep : Respects KeepsValid (runStep env b) := by
  have htake := keepsValid_takeStep hamo b
  have hupdate (op : Opcode) : Respects KeepsValid (performanceAndSyncUpdate env b op) := by
    unfold performanceAndSyncUpdate
    cases b <;> infer_instance
  have hafter : Respects KeepsValid (afterInstr env b) := by
    unfold afterInstr
    infer_instance
  unfold runStep
  infer_instance

end

/-! ### Runs -/

/-- The states a simulator can be in, from any hart with nothing pending. -/
inductive Reachable (env : Env W) (b : Build) : TimedHart W → Prop
  | start (h : Hart W) (cycles : BitVec 64) : Reachable env b ⟨h, .empty cycles⟩
  | step {t : TimedHart W} : Reachable env b t → Reachable env b (final (runStep env b t))

theorem Reachable.valid {env : Env W} (hamo : env.AmoValid) {b : Build} {t : TimedHart W}
    (h : Reachable env b t) : t.pipeline.Valid := by
  induction h with
  | start h cycles => exact Timing.Pipeline.valid_empty cycles
  | step _ ih => exact (keepsValid_runStep hamo b).rel _ ih

end Vcil.Iss
