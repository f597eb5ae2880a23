import Vcil.Iss.CriticalSections

/-!
# A handler that cannot be fetched

Interrupts are looked for only after an instruction that raises no trap.  A handler whose first
instruction cannot be loaded, with the exception delegated to its own mode, is entered again and
again: no interrupt gets through, not even one for a mode above.

* `Csrs.base`: where exceptions of a mode are handled;
* `Env.Unloadable`: the load from there raises an exception that goes to the same mode;
* `AtUnloadable`: the hart is there;
* `TrapsTo`: a step that raises an exception, which its mode records;
* `loops_at_handler`: all steps do, and nothing of the modes above is written.
-/

namespace Vcil.Iss

open Fallible

variable {W : Type}

/-! ### The handler -/

/-- The address of the handler for exceptions. -/
def Csrs.base (c : Csrs) : Mode → Word
  | .machine => c.mtvec &&& ~~~3
  | .supervisor => c.stvec &&& ~~~3
  | .user => c.utvec &&& ~~~3

/-- An exception that is raised in a mode is delegated down to it. -/
def Csrs.Delegates (c : Csrs) (reason : ExceptionCode) : Mode → Prop
  | .machine => True
  | .supervisor => c.medeleg.getLsbD reason.toNat = true
  | .user => c.medeleg.getLsbD reason.toNat = true ∧ c.sedeleg.getLsbD reason.toNat = true

/-- Whatever the platform does, the first instruction of the handler of `m` cannot be loaded, and
the exception goes to `m` again. -/
def Env.Unloadable (env : Env W) (m : Mode) (c : Csrs) : Prop :=
  ∀ view w, view.prv = m.level → ∃ e w', env.loadInstr (c.base m) view w = (.error (.trap e), w') ∧
    c.Delegates e.reason m

/-- The hart is about to fetch it. -/
structure AtUnloadable (env : Env W) (m : Mode) (h : Hart W) : Prop where
  level : h.prv = m.level
  pc : h.pc = h.csrs.base m
  unloadable : env.Unloadable m h.csrs

/-- The instruction of the step raises an exception that goes to `m`, whose cause register shows it
after the step. -/
def TrapsTo (env : Env W) (b : Build) (m : Mode) (t t' : TimedHart W) : Prop :=
  ∃ e t₁, execStep env b { t with hart := startInstr t.hart } = .error (.trap e) t₁ ∧
    exceptionTarget t₁.hart e.reason = m ∧
    Cause.interrupt.get (t'.hart.csrs.cause m) = 0 ∧
    Cause.exceptionCode.get (t'.hart.csrs.cause m) = e.reason.setWidth 31

section

variable {env : Env W} {b : Build} {m : Mode} {c c' : Csrs} {h h' : Hart W} {t t' : TimedHart W}

theorem exceptionTarget_of_delegates {reason : ExceptionCode} (hprv : h.prv = m.level)
    (hdelegates : h.csrs.Delegates reason m) : exceptionTarget h reason = m := by
  unfold exceptionTarget
  rw [hprv]
  cases m with
  | machine => exact if_neg fun hlt => absurd hlt.1 (by decide)
  | supervisor =>
    rw [if_pos ⟨by decide, hdelegates⟩, if_neg fun huser => absurd huser.1 (by decide)]
  | user => rw [if_pos ⟨by decide, hdelegates.1⟩, if_pos ⟨rfl, hdelegates.2⟩]

/-- An exception is handled at the base, also in vectored mode. -/
theorem handler_of_exception (c : Csrs) (reason : ExceptionCode) (cause tval : Word) (m : Mode) :
    ((c.setCause (causeOf 0 reason cause) m).setTval tval m).handler m = c.base m := by
  have hbase (tvec : Word) : handlerAddress tvec (causeOf 0 reason cause) = tvec &&& ~~~3 := by
    refine if_neg fun hvectored => ?_
    have hbit := hvectored.1
    rw [BitField.isSet, causeOf, BitField.getLsbD_put _ _ _ (by decide), if_neg (by decide),
      BitField.getLsbD_put _ _ _ (by decide), if_pos (by decide)] at hbit
    cases hbit
  cases m <;> exact hbase _

/-- What `m` and the modes above have set up decides. -/
theorem KeptAbove.base_eq (hkept : KeptAbove m (some m) c c') : c'.base m = c.base m := by
  have hsetup := hkept.setup m (BitVec.le_refl _)
  cases m <;> simp only [Csrs.setup, List.cons.injEq] at hsetup <;>
    simp only [Csrs.base, hsetup]

theorem KeptAbove.unloadable (hkept : KeptAbove m (some m) c c') (h : env.Unloadable m c) :
    env.Unloadable m c' := by
  intro view w hview
  obtain ⟨e, w', hload, hdelegates⟩ := h view w hview
  have hmachine := hkept.setup .machine (le_machineMode _)
  refine ⟨e, w', by rwa [hkept.base_eq], ?_⟩
  cases m with
  | machine => trivial
  | supervisor =>
    simp only [Csrs.setup, List.cons.injEq] at hmachine
    simpa only [Csrs.Delegates, hmachine] using hdelegates
  | user =>
    have hsupervisor := hkept.setup .supervisor (by decide)
    simp only [Csrs.setup, List.cons.injEq] at hmachine hsupervisor
    simpa only [Csrs.Delegates, hmachine, hsupervisor] using hdelegates

/-! ### Steps -/

/-- The fetch fails, with the exception of the load if the address is aligned. -/
theorem AtUnloadable.fetch_error (h₀ : AtUnloadable env m h) :
    (∃ h', fetch env (startInstr h) = .error .assertion h') ∨
      ∃ e w i, h.csrs.Delegates e.reason m ∧ fetch env (startInstr h) =
        .error (.trap e) { (startInstr h).setWorld w with op := .undef, instr := i } := by
  unfold fetch
  by_cases haligned : (startInstr h).pc &&& ~~~env.pcAlignmentMask (startInstr h).csrs.misa = 0
  · obtain ⟨e, w, hload, hdelegates⟩ :=
      h₀.unloadable (startInstr h).memView (startInstr h).world h₀.level
    rw [← h₀.pc] at hload
    have herror : loadInstr env (startInstr h) = .error (.trap e)
        { (startInstr h).setWorld w with op := .undef, instr := env.instruction 0 } := by
      unfold loadInstr access
      rw [show (startInstr h).pc = h.pc from rfl, hload]
    refine .inr ⟨e, w, env.instruction 0, hdelegates, ?_⟩
    rw [bind_of_ok ((assert_eq _ _).trans (if_pos (decide_eq_true haligned)))]
    exact bind_of_error herror
  · exact .inl ⟨_, bind_of_error
      ((assert_eq _ _).trans (if_neg (by simpa using haligned)))⟩

/-- So does the instruction, in a hart of the same mode with the same delegations. -/
theorem AtUnloadable.execStep_error (h₀ : AtUnloadable env m t.hart) :
    (∃ t₁, execStep env b { t with hart := startInstr t.hart } = .error .assertion t₁) ∨
      ∃ e t₁, execStep env b { t with hart := startInstr t.hart } = .error (.trap e) t₁ ∧
        t₁.hart.prv = m.level ∧ t₁.hart.csrs.Delegates e.reason m ∧
        KeptAbove m (some m) t.hart.csrs t₁.hart.csrs := by
  rw [execStep_eq]
  rcases h₀.fetch_error with ⟨h₁, hfetch⟩ | ⟨e, w, i, hdelegates, hfetch⟩
  · simp only [hfetch]
    exact .inl ⟨_, rfl⟩
  · simp only [hfetch]
    refine .inr ⟨e, _, rfl, h₀.level, ?_, .pending m (some m) t.hart.csrs w.mip⟩
    cases m <;> exact hdelegates

theorem AtUnloadable.not_delivers (h₀ : AtUnloadable env m t.hart) (n : Mode) :
    ¬DeliversTo env b t n := by
  rintro ⟨-, t₁, x, hok, -⟩
  rcases h₀.execStep_error (b := b) with ⟨t₂, herror⟩ | ⟨e, t₂, herror, -⟩
  · cases hok.symm.trans herror
  · cases hok.symm.trans herror

/-- The exception enters the handler of the same mode, and is recorded there. -/
theorem entry_of_delegates (hprv : h.prv = m.level) {e : SimulationTrap}
    (hdelegates : h.csrs.Delegates e.reason m) (hcatch : catchTrap env (.trap e) h = .ok () h') :
    Entry env m h.lastPc h h' ∧ h'.pc = h.csrs.base m ∧
      h'.csrs.cause m = causeOf 0 e.reason (h.csrs.cause m) := by
  obtain ⟨x, h₁, hprepare, hswitch⟩ := bind_eq_ok.1 hcatch
  have hx := hprepare
  rw [prepareTrap_eq hprv e (exceptionTarget_of_delegates hprv hdelegates).symm] at hx
  -- a value that does not fit ends the simulation
  split_ifs at hx
  cases hx
  refine ⟨.exception hprepare hswitch, ?_⟩
  rw [switchToTrapHandler_eq] at hswitch
  cases hrelease : releaseLrScReservation env _ with
  | ok _ h₂ =>
    rw [hrelease] at hswitch
    cases hswitch
    have hbase := handler_of_exception h.csrs e.reason (h.csrs.cause m) (e.mtval.setWidth 32) m
    rw [releaseLrScReservation_ok hrelease, ← hbase]
    cases m <;> exact ⟨rfl, rfl⟩
  | error _ h₂ =>
    rw [hrelease] at hswitch
    cases hswitch

theorem AtUnloadable.takeStep (h₀ : AtUnloadable env m t.hart)
    (htake : takeStep env b { t with hart := startInstr t.hart } = .ok () t') :
    AtUnloadable env m t'.hart ∧ KeptAbove m (some m) t.hart.csrs t'.hart.csrs ∧
      TrapsTo env b m t t' := by
  rw [takeStep_eq] at htake
  rcases h₀.execStep_error (b := b) with ⟨t₁, herror⟩ |
    ⟨e, t₁, herror, hprv, hdelegates, hworld⟩
  · simp only [herror] at htake
    cases htake
  · simp only [herror] at htake
    obtain ⟨h₂, hcatch, rfl⟩ := lift_ok htake
    obtain ⟨hentry, hpc, hcause⟩ := entry_of_delegates hprv hdelegates hcatch
    have hkept := hworld.trans hentry.keptAbove
    have hbase : h₂.pc = h₂.csrs.base m := by rw [hkept.base_eq, ← hworld.base_eq, hpc]
    have hrecord : TrapsTo env b m t { t₁ with hart := h₂ } := by
      refine ⟨e, t₁, herror, exceptionTarget_of_delegates hprv hdelegates, ?_⟩
      rw [hcause]
      exact get_causeOf _ _ _
    exact ⟨⟨hentry.prv, hbase, hkept.unloadable h₀.unloadable⟩, hkept, hrecord⟩

/-- What follows the instruction leaves the record. -/
theorem TrapsTo.settle {t₁ : TimedHart W} (htraps : TrapsTo env b m t t₁)
    (hsettled : Unchanged settled t₁.hart t'.hart) : TrapsTo env b m t t' := by
  obtain ⟨e, t₂, herror, htarget, hcause⟩ := htraps
  have hsame : t'.hart.csrs.cause m = t₁.hart.csrs.cause m := by
    cases m with
    | machine => exact congrArg (·.2.2.mcause) hsettled
    | supervisor => exact congrArg (·.2.2.scause) hsettled
    | user => exact congrArg (·.2.2.ucause) hsettled
  rw [← hsame] at hcause
  exact ⟨e, t₂, herror, htarget, hcause⟩

theorem AtUnloadable.runStep (h₀ : AtUnloadable env m t.hart)
    (hr : runStep env b t = .ok () t') :
    AtUnloadable env m t'.hart ∧ KeptAbove m (some m) t.hart.csrs t'.hart.csrs ∧
      (atBreakpoint t.hart = true ∨ TrapsTo env b m t t') := by
  rcases runStep_ok hr with ⟨hstop, rfl⟩ | ⟨-, t₁, htake, hafter⟩
  · exact ⟨⟨h₀.level, h₀.pc, h₀.unloadable⟩, .refl m _ _, .inl hstop⟩
  · obtain ⟨h₁, hkept, htraps⟩ := h₀.takeStep htake
    have hsettled := (respects_afterInstr_settled env b).rel t₁
    rw [hafter] at hsettled
    have hrest : KeptAbove m (some m) t₁.hart.csrs t'.hart.csrs :=
      keptAbove_of_settled hsettled (some m)
    have hprv : t'.hart.prv = t₁.hart.prv := congrArg (·.1) hsettled
    have hpc : t'.hart.pc = t₁.hart.pc := congrArg (·.2.1) hsettled
    refine ⟨⟨hprv.trans h₁.level, ?_, hrest.unloadable h₁.unloadable⟩, hkept.trans hrest,
      .inr (htraps.settle hsettled)⟩
    rw [hpc, h₁.pc, hrest.base_eq]

end

/-! ### Main result -/

/-- A hart at a handler that cannot be loaded stays there: whatever interrupts are pending and
enabled in any mode, no step of a run delivers one; each step that is not stopped at a breakpoint
raises an exception, which `m` records; and nothing is recorded in a mode above. -/
theorem loops_at_handler {env : Env W} (b : Build) {m : Mode} {t t' : TimedHart W}
    (h₀ : AtUnloadable env m t.hart) (hrun : Run env b (fun _ => True) t t') :
    AtUnloadable env m t'.hart ∧ KeptAbove m (some m) t.hart.csrs t'.hart.csrs ∧
      (∀ n, ¬DeliversTo env b t' n) ∧
      ∀ t₁, runStep env b t' = .ok () t₁ → atBreakpoint t'.hart = true ∨ TrapsTo env b m t' t₁ := by
  have hstays : AtUnloadable env m t'.hart ∧ KeptAbove m (some m) t.hart.csrs t'.hart.csrs := by
    induction hrun with
    | refl => exact ⟨h₀, .refl m _ _⟩
    | tail _ hstep ih =>
      obtain ⟨h₁, hkept⟩ := ih
      obtain ⟨h₂, hrest, -⟩ := h₁.runStep hstep.2
      exact ⟨h₂, hkept.trans hrest⟩
  obtain ⟨h₁, hkept⟩ := hstays
  exact ⟨h₁, hkept, h₁.not_delivers, fun t₁ hr => (h₁.runStep hr).2.2⟩

/-- The platform without instruction memory. -/
def Env.noInstructions : Env BareMemory :=
  { Env.bare with loadInstr := fun addr _ w => (.error (.trap ⟨12, addr.setWidth 64⟩), w) }

/-- A hart in supervisor mode with the exception delegated, and a timer interrupt for machine mode
pending. -/
def timerPending : TimedHart BareMemory where
  hart := { Hart.reset supervisorMode 0x00140100 0 fun _ => 0 with
    csrs := { Csrs.reset 0x00140100 0 with medeleg := 0x1000, mie := 0x80, mip := 0x80 } }
  pipeline := .empty 0

theorem loops_at_handler_timerPending :
    computePendingInterrupts timerPending.hart = some ⟨machineMode, 0x80⟩ ∧
      ∃ t, runStep Env.noInstructions .plain timerPending = .ok () t ∧
        AtUnloadable Env.noInstructions .supervisor t.hart ∧
        KeptAbove .supervisor (some .supervisor) timerPending.hart.csrs t.hart.csrs ∧
        (∀ n, ¬DeliversTo Env.noInstructions .plain t n) ∧
        ∀ t₁, runStep Env.noInstructions .plain t = .ok () t₁ →
          atBreakpoint t.hart = true ∨ TrapsTo Env.noInstructions .plain .supervisor t t₁ := by
  have h₀ : AtUnloadable Env.noInstructions .supervisor timerPending.hart :=
    ⟨rfl, rfl, fun _ w _ => ⟨_, w, rfl, rfl⟩⟩
  exact ⟨rfl, _, rfl, loops_at_handler .plain h₀ (.single ⟨trivial, rfl⟩)⟩

end Vcil.Iss
