import Mathlib.Logic.Relation
import Vcil.Iss.Builds

/-!
# One step of a hart

`run_step`, around `exec_step`: breakpoints, traps and interrupts, and the bookkeeping of time.

* `instrCycles`, `performanceAndSyncUpdate`: the time an instruction takes;
* `takeStep`, `EntersHandler`: the instruction with the trap or interrupt that follows it;
* `runStep`: the whole function;
* `Run`: the states after the steps of a run, each of which satisfies a condition.
-/

namespace Vcil.Iss

open Fallible

variable {W : Type} (env : Env W)

/-! ### Time -/

/-- The table `instr_cycles`. -/
def instrCycles : Opcode → ℕ
  | .lb | .lbu | .lh | .lhu | .lw | .sb | .sh | .sw => 4 * cycleTime
  | .mul | .mulh | .mulhu | .mulhsu | .div | .divu | .rem | .remu => 8 * cycleTime
  | _ => cycleTime

namespace Mcountinhibit

/-- `mcycle` does not count. -/
abbrev cy : BitField := ⟨0, 1⟩
/-- `minstret` does not count. -/
abbrev ir : BitField := ⟨2, 1⟩

end Mcountinhibit

/-- One instruction less in the LR/SC window; the bus is unlocked at its end. -/
def countLrSc : M W Unit := do
  let h ← get
  if h.lrScCounter ≠ 0 then do
    setLrScCounter (h.lrScCounter - 1)
    assert fun h => 0 ≤ h.lrScCounter
    let h ← get
    if h.lrScCounter = 0 then releaseLrScReservation env else pure ()
  else pure ()

/-- `++total_num_instr` and, unless inhibited, `++csrs.instret.reg`. -/
def addInstr (h : Hart W) : Hart W :=
  { h with
    totalNumInstr := h.totalNumInstr + 1
    csrs := { h.csrs with
      instret :=
        if Mcountinhibit.ir.isSet h.csrs.mcountinhibit then h.csrs.instret
        else h.csrs.instret + 1 } }

/-- `cycle_counter += new_cycles`, unless inhibited. -/
def addCycles (newCycles : ℕ) (h : Hart W) : Hart W :=
  { h with
    cycleCounter :=
      if Mcountinhibit.cy.isSet h.csrs.mcountinhibit then h.cycleCounter
      else h.cycleCounter + BitVec.ofNat 64 newCycles }

/-- The first half of `performance_and_sync_update`, the same in both builds. -/
def countInstr (executedOp : Opcode) : M W Unit := do
  modify addInstr
  countLrSc env
  modify (addCycles (instrCycles executedOp))

/-- `quantum_keeper.inc(time)`; a due synchronization waits until the bus is unlocked. -/
def advanceQuantum (time : ℕ) : M W Unit := do
  onWorld (env.quantumInc time)
  let h ← get
  if env.quantumNeedSync h.world && h.lrScCounter = 0 then onWorld env.quantumSync else pure ()

/-- The cycles of the timing model are remembered. -/
def setCycles (currentCycles : BitVec 64) (h : Hart W) : Hart W :=
  { h with currentCycles := currentCycles, lastCycles := currentCycles }

/-- The cycles of the pipeline since the last instruction. -/
def advanceCycles (currentCycles : BitVec 64) : M W Unit := do
  let h ← get
  modify (setCycles currentCycles)
  advanceQuantum env ((currentCycles - h.lastCycles).toNat * cycleTime)

/-- `performance_and_sync_update(executed_op)`. -/
def performanceAndSyncUpdate (b : Build) (executedOp : Opcode) : PM W Unit := do
  lift (countInstr env executedOp)
  match b with
  | .plain => lift (advanceQuantum env (instrCycles executedOp))
  | .pipeline => do
      charge fun p => p.advance 1
      let t ← get
      lift (advanceCycles env t.pipeline.numTotalCycles)

/-! ### Traps and interrupts -/

/-- An interrupt that is pending after the instruction is taken. -/
def deliverInterrupt : M W Unit := do
  let h ← get
  match computePendingInterrupts h with
  | none => pure ()
  | some x => do
      prepareInterrupt x
      switchToTrapHandler env x.targetMode

theorem deliverInterrupt_eq (h : Hart W) :
    deliverInterrupt env h = match computePendingInterrupts h with
      | none => .ok () h
      | some x => (do prepareInterrupt x; switchToTrapHandler env x.targetMode : M W Unit) h := by
  show (match computePendingInterrupts h with
    | none => pure ()
    | some x => do
        prepareInterrupt x
        switchToTrapHandler env x.targetMode : M W Unit) h = _
  cases computePendingInterrupts h <;> rfl

/-- The handler of `catch (SimulationTrap &e)`; other exceptions pass. -/
def catchTrap : Raise → M W Unit
  | .trap e => do
      let targetMode ← prepareTrap e
      switchToTrapHandler env targetMode
  | e => throw e

/-- The instruction, and the entry into a handler that follows it. -/
def takeStep (b : Build) : PM W Unit :=
  tryCatch (do execStep env b; lift (deliverInterrupt env)) fun e => lift (catchTrap env e)

/-! ### The step -/

/-- `debug_mode && (breakpoints.find(pc) != breakpoints.end())`. -/
def atBreakpoint (h : Hart W) : Bool := h.debugMode && h.breakpoints.contains (h.pc.setWidth 64)

/-- `last_pc = pc`. -/
def startInstr (h : Hart W) : Hart W := { h with lastPc := h.pc }

/-- The opcode after the fetch of the next instruction. -/
def fetched (h : Hart W) : Opcode := (final (fetch env (startInstr h))).op

/-- What follows the instruction: register zero is reset, and the exit status is set. -/
def finishInstr (h : Hart W) : Hart W :=
  { h with
    regs := Function.update h.regs 0 0
    status := if h.shallExit then .terminated else h.status }

/-- The end of `run_step`. -/
def afterInstr (b : Build) : PM W Unit := do
  lift (modify finishInstr)
  let t ← get
  performanceAndSyncUpdate env b t.hart.op

/-- `status = CoreExecStatus::HitBreakpoint`. -/
def hitBreakpoint (h : Hart W) : Hart W := { h with status := .hitBreakpoint }

/-- `run_step()`. -/
def runStep (b : Build) : PM W Unit := do
  lift (assert fun h => h.regs 0 = 0)
  let t ← get
  if atBreakpoint t.hart then lift (modify hitBreakpoint)
  else do
    lift (modify startInstr)
    takeStep env b
    afterInstr env b

/-- The step executes an instruction. -/
def Starts (t : TimedHart W) : Prop := t.hart.regs 0 = 0 ∧ atBreakpoint t.hart = false

/-- The step takes a trap or delivers an interrupt. -/
def EntersHandler (b : Build) (t : TimedHart W) : Prop :=
  match execStep env b { t with hart := startInstr t.hart } with
  | .ok _ t => computePendingInterrupts t.hart ≠ none
  | .error (.trap _) _ => True
  | .error _ _ => False

section

variable {env : Env W} {b : Build} {t t' : TimedHart W}

/-- The three ways of a step: the assertion, the breakpoint and the instruction. -/
theorem runStep_eq : runStep env b t =
    if t.hart.regs 0 = 0 then
      if atBreakpoint t.hart then .ok () { t with hart := hitBreakpoint t.hart }
      else (do takeStep env b; afterInstr env b : PM W Unit)
        { t with hart := startInstr t.hart }
    else .error .assertion t := by
  unfold runStep
  by_cases hzero : t.hart.regs 0 = 0
  · have hassert : lift (assert fun h => h.regs 0 = 0) t = .ok () t :=
      lift_of_ok (by rw [assert_eq, if_pos (decide_eq_true hzero)])
    rw [if_pos hzero, bind_of_ok hassert]
    change (if atBreakpoint t.hart then lift (modify hitBreakpoint) else (do
      lift (modify startInstr)
      takeStep env b
      afterInstr env b) : PM W Unit) t = _
    split <;> rfl
  · have hassert : lift (assert fun h => h.regs 0 = 0) t = .error .assertion t :=
      lift_of_error (by rw [assert_eq, if_neg (by simpa using hzero)])
    rw [if_neg hzero]
    exact bind_of_error hassert

/-- A step that returns has met a breakpoint or executed an instruction. -/
theorem runStep_ok (h : runStep env b t = .ok () t') :
    (atBreakpoint t.hart = true ∧ t' = { t with hart := hitBreakpoint t.hart }) ∨
      (atBreakpoint t.hart = false ∧ ∃ t₁,
        takeStep env b { t with hart := startInstr t.hart } = .ok () t₁ ∧
        afterInstr env b t₁ = .ok () t') := by
  rw [runStep_eq] at h
  split_ifs at h with hzero hbreak
  · cases h
    exact .inl ⟨hbreak, rfl⟩
  · obtain ⟨_, t₁, htake, h⟩ := bind_eq_ok.1 h
    exact .inr ⟨by simpa using hbreak, t₁, htake, h⟩

theorem starts_of_ok (h : runStep env b t = .ok () t') (hbreak : atBreakpoint t.hart = false) :
    Starts t := by
  rw [runStep_eq] at h
  split_ifs at h with hzero
  · exact ⟨hzero, hbreak⟩
  · exact ⟨hzero, hbreak⟩

/-- A step that does not return fails in its instruction, or in the bookkeeping after it. -/
theorem runStep_error {e : Raise} (h : runStep env b t = .error e t') :
    e = .assertion ∨ takeStep env b { t with hart := startInstr t.hart } = .error e t' ∨
      ∃ t₁, takeStep env b { t with hart := startInstr t.hart } = .ok () t₁ ∧
        afterInstr env b t₁ = .error e t' := by
  rw [runStep_eq] at h
  split_ifs at h
  · rcases bind_eq_error.1 h with htake | ⟨_, t₁, htake, hafter⟩
    · exact .inr (.inl htake)
    · exact .inr (.inr ⟨t₁, htake, hafter⟩)
  · cases h
    exact .inl rfl

/-- The instruction, the interrupt that may follow, and the handler of `catch`. -/
theorem takeStep_eq : takeStep env b t = match execStep env b t with
    | .ok _ t₁ => match lift (deliverInterrupt env) t₁ with
      | .ok _ t₂ => .ok () t₂
      | .error e t₂ => lift (catchTrap env e) t₂
    | .error e t₁ => lift (catchTrap env e) t₁ := by
  simp only [takeStep, tryCatch, tryCatchThe, MonadExceptOf.tryCatch, EStateM.tryCatch, bind,
    EStateM.bind]
  cases execStep env b t with
  | ok u t₁ =>
    dsimp only
    cases lift (deliverInterrupt env) t₁ <;> rfl
  | error e t₁ => rfl

/-- A step that returns: its instruction and the interrupt after it, an interrupt that the handler
of `catch` takes over, or a trap of the instruction. -/
theorem takeStep_cases (h : takeStep env b t = .ok () t') :
    (∃ t₁ h₁, execStep env b t = .ok () t₁ ∧ deliverInterrupt env t₁.hart = .ok () h₁ ∧
        t' = { t₁ with hart := h₁ }) ∨
      (∃ t₁ e h₁ h₂, execStep env b t = .ok () t₁ ∧
        deliverInterrupt env t₁.hart = .error e h₁ ∧ catchTrap env e h₁ = .ok () h₂ ∧
        t' = { t₁ with hart := h₂ }) ∨
      ∃ t₁ e h₁, execStep env b t = .error e t₁ ∧ catchTrap env e t₁.hart = .ok () h₁ ∧
        t' = { t₁ with hart := h₁ } := by
  rw [takeStep_eq] at h
  cases hexec : execStep env b t with
  | ok u t₁ =>
    simp only [hexec] at h
    cases hdeliver : lift (deliverInterrupt env) t₁ with
    | ok u t₂ =>
      simp only [hdeliver] at h
      cases h
      obtain ⟨h₁, hinterrupt, rfl⟩ := lift_ok hdeliver
      exact .inl ⟨t₁, h₁, rfl, hinterrupt, rfl⟩
    | error e t₂ =>
      simp only [hdeliver] at h
      obtain ⟨h₁, hinterrupt, rfl⟩ := lift_error hdeliver
      obtain ⟨h₂, hcatch, rfl⟩ := lift_ok h
      exact .inr (.inl ⟨t₁, e, h₁, h₂, rfl, hinterrupt, hcatch, rfl⟩)
  | error e t₁ =>
    simp only [hexec] at h
    obtain ⟨h₁, hcatch, rfl⟩ := lift_ok h
    exact .inr (.inr ⟨t₁, e, h₁, rfl, hcatch, rfl⟩)

/-- A step that enters no handler executes its instruction without a trap. -/
theorem takeStep_ok (hno : ¬EntersHandler env b t)
    (h : takeStep env b { t with hart := startInstr t.hart } = .ok () t') :
    execStep env b { t with hart := startInstr t.hart } = .ok () t' := by
  have hnone {t₁ : TimedHart W}
      (hexec : execStep env b { t with hart := startInstr t.hart } = .ok () t₁) :
      deliverInterrupt env t₁.hart = .ok () t₁.hart := by
    unfold EntersHandler at hno
    simp only [hexec] at hno
    rw [deliverInterrupt_eq, not_not.1 hno]
  rcases takeStep_cases h with ⟨t₁, h₁, hexec, hdeliver, rfl⟩ |
    ⟨t₁, e, h₁, h₂, hexec, hdeliver, -, -⟩ | ⟨t₁, e, h₁, hexec, hcatch, -⟩
  · cases (hnone hexec).symm.trans hdeliver
    exact hexec
  · cases (hnone hexec).symm.trans hdeliver
  · unfold EntersHandler at hno
    simp only [hexec] at hno
    cases e with
    | trap e => exact absurd trivial hno
    | _ => cases hcatch

end

/-! ### Runs -/

/-- `t` comes after steps that return, all from states that satisfy a condition. -/
def Run (b : Build) (condition : TimedHart W → Prop) : TimedHart W → TimedHart W → Prop :=
  Relation.ReflTransGen fun t t' => condition t ∧ runStep env b t = .ok () t'

end Vcil.Iss
