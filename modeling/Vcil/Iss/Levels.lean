import Vcil.Iss.Privilege
import Vcil.Iss.TrapNesting

/-!
# Unknown privilege levels

A hart is in user, supervisor or machine mode; every other level ends the simulation with an
exception that nothing catches.  Trap entry, `SRET` and `URET` only lead to modes.  `MRET` goes to the
level in `mstatus.MPP`, two bits that software can set to any value.

* `LevelKnown`: the level is that of a mode, and a step raises no exception about the level;
* `ReturnsToReserved`: the step executes an `MRET` to the one level that is none;
* `levelKnown_of_run`: in a run without such a step all levels are known.
-/

namespace Vcil.Iss

open Fallible

variable {W : Type} (env : Env W) (b : Build)

/-! ### Known levels -/

/-- The privilege level of a mode. -/
def IsLevel (p : PrivilegeLevel) : Prop := ∃ m : Mode, p = m.level

/-- The level is known, and a step from there does not end because of a level that is not. -/
def LevelKnown (t : TimedHart W) : Prop :=
  IsLevel t.hart.prv ∧ ∀ e t', runStep env b t = .error e t' → ¬UnknownLevel e

/-- The step executes an `MRET` with the reserved value in `mstatus.MPP`. -/
def ReturnsToReserved (t : TimedHart W) : Prop :=
  atBreakpoint t.hart = false ∧ ∃ h, fetch env (startInstr t.hart) = .ok () h ∧ h.op = .mret ∧
    Mstatus.mpp.get h.csrs.mstatus = 2

/-- A call of the platform that raises no exception about a privilege level. -/
def NoLevelError {α : Type} (f : Access W α) : Prop :=
  ∀ view w e w', f view w = (.error e, w') → ¬UnknownLevel e

/-- The platform leaves the exceptions about privilege levels to the simulator. -/
structure Env.NoLevelErrors (env : Env W) : Prop where
  reads : ∀ {α : Type} {f : Access W α}, env.Reads f → NoLevelError f
  stores : ∀ {α : Type} {f : Access W α}, env.Stores f → NoLevelError f
  amo : ∀ f i regs, NoLevelError (env.executeAmo f i regs)

theorem isLevel_of_ne {p : PrivilegeLevel} (h : p ≠ 2) : IsLevel p := by
  have hmode : p = userMode ∨ p = supervisorMode ∨ p = machineMode := by
    revert p
    decide
  rcases hmode with rfl | rfl | rfl
  · exact ⟨.user, rfl⟩
  · exact ⟨.supervisor, rfl⟩
  · exact ⟨.machine, rfl⟩

theorem isLevel_setWidth (spp : BitVec 1) : IsLevel (spp.setWidth 2) := by
  refine isLevel_of_ne ?_
  revert spp
  decide

/-! ### Instructions -/

variable {env} (henv : env.NoLevelErrors)

section

variable {α : Type} {m : M W α} {h h' : Hart W} {e : Raise}

theorem access_noLevelError {f : Access W α} (hf : NoLevelError f)
    (hr : access f h = .error e h') : ¬UnknownLevel e := by
  obtain ⟨w, hcall, -⟩ := access_eq_error.1 hr
  exact hf _ _ _ _ hcall

/-- `ECALL` knows the modes. -/
theorem ecallTrap_error (hprv : IsLevel h.prv) (hr : ecallTrap h = .error e h') : IsTrap e := by
  obtain ⟨m, hm⟩ := hprv
  have hmode : ecallTrap h = (if m.level = machineMode then
      raiseTrap excEcallMMode (h.lastPc.setWidth 64)
    else if m.level = supervisorMode then raiseTrap excEcallSMode (h.lastPc.setWidth 64)
    else if m.level = userMode then raiseTrap excEcallUMode (h.lastPc.setWidth 64)
    else unknownPrivilegeLevel m.level : M W Unit) h := by
    rw [← hm]
    rfl
  rw [hmode] at hr
  cases m
  all_goals
    cases hr
    exact ⟨_, rfl⟩

include henv

theorem keep_noLevelError (hm : Keep env α m) (hprv : IsLevel h.prv)
    (hr : m h = .error e h') : ¬UnknownLevel e := by
  cases hm with
  | quiet hm => exact (quiet_error hm hr).2
  | trap e =>
    cases hr
    exact not_unknownLevel_trap e
  | ecallTrap =>
    obtain ⟨trap, rfl⟩ := ecallTrap_error hprv hr
    exact not_unknownLevel_trap trap
  | read f hf => exact access_noLevelError (henv.reads hf) hr
  | mtime => cases hr
  | jump f =>
    rw [jump_eq] at hr
    split at hr
    · cases hr
    · cases hr
      exact not_unknownLevel_trap _

theorem part_noLevelError (hm : Part env α m) (hprv : IsLevel h.prv)
    (hr : m h = .error e h') : ¬UnknownLevel e := by
  cases hm with
  | keep hm => exact keep_noLevelError henv hm hprv hr
  | last hm =>
    cases hm with
    | store f hf => exact access_noLevelError (henv.stores hf) hr
  | free hm => exact (free_error hm hr).2
  | amo f i regs => exact access_noLevelError (henv.amo f i regs) hr

theorem stepPart_noLevelError (hm : StepPart env α m) (hr : m h = .error e h') :
    ¬UnknownLevel e := by
  cases hm with
  | quiet hm => exact (quiet_error hm hr).2
  | unlock => exact access_noLevelError (henv.reads .atomicUnlock) hr
  | _ => cases hr

theorem fetchPart_noLevelError (hm : FetchPart env α m) (hr : m h = .error e h') :
    ¬UnknownLevel e := by
  cases hm with
  | raise e hlevel =>
    cases hr
    exact hlevel
  | loadInstr =>
    unfold Vcil.Iss.loadInstr at hr
    split at hr
    · cases hr
    · cases hr
      exact not_unknownLevel_trap _
    · cases hr
      exact access_noLevelError (henv.reads (.loadInstr _)) ‹_›
  | _ => cases hr

end

/-- From a known level, no exception about the level. -/
def LevelSafe (e : Raise) (h _h' : Hart W) : Prop := IsLevel h.prv → ¬UnknownLevel e

theorem levelSafe_trans (e : Raise) (h h₁ h' : Hart W) (hprv : Unchanged Hart.prv h h₁)
    (hsafe : LevelSafe e h₁ h') : LevelSafe e h h' := by
  intro hlevel
  refine hsafe ?_
  rwa [show h₁.prv = h.prv from hprv]

section

variable {t t' : TimedHart W} {e : Raise}

include henv

theorem fetch_noLevelError {h h' : Hart W} (hr : fetch env h = .error e h') :
    ¬UnknownLevel e :=
  (made_fetch.avoids fun hm _ _ _ hr => fetchPart_noLevelError henv hm hr) h e h' hr

omit henv in
/-- Computations made of parts that raise nothing about a known level. -/
theorem timed_noLevelError {P : (α : Type) → M W α → Prop}
    (hP : ∀ {α : Type} {m : M W α}, P α m → Ends (Unchanged Hart.prv) LevelSafe m)
    {m : PM W Unit} (hm : Made (Timed env P) m) (hprv : IsLevel t.hart.prv)
    (hr : m t = .error e t') : ¬UnknownLevel e := by
  have hends : Ends (OnHart (Unchanged Hart.prv)) (fun e t t' => LevelSafe e t.hart t'.hart) m :=
    hm.ends (fun e t t₁ t' => levelSafe_trans e t.hart t₁.hart t'.hart) fun hm =>
      hm.ends (fun _ _ => not_unknownLevel_assertion) hP
  exact hends.error hr hprv

theorem exec_noLevelError (i : Instruction) {op : Opcode} (hprv : IsLevel t.hart.prv)
    (hr : exec env b i op t = .error e t') : ¬UnknownLevel e := by
  by_cases hop : IsReturn op
  · rw [exec_return env b i hop] at hr
    obtain ⟨h', hr, -⟩ := lift_error hr
    rcases return_cases env i hop t.hart with ⟨m, -, hreturn⟩ | hillegal
    · cases hreturn.symm.trans hr
    · cases hillegal.symm.trans hr
      exact not_unknownLevel_trap _
  · refine timed_noLevelError (fun hm => ?_) (made_exec b i hop) hprv hr
    exact .of_respects (respects_part hm) fun _ _ _ hr hlevel =>
      part_noLevelError henv hm hlevel hr

theorem execStep_noLevelError (hprv : IsLevel t.hart.prv)
    (hr : execStep env b t = .error e t') : ¬UnknownLevel e := by
  rw [execStep_eq] at hr
  cases hf : fetch env t.hart with
  | ok u h =>
    rw [hf] at hr
    refine exec_noLevelError b henv h.instr ?_ hr
    rwa [show h.prv = t.hart.prv from fetch_prv env hf]
  | error e₁ h =>
    rw [hf] at hr
    cases hr
    exact fetch_noLevelError henv hf

theorem afterInstr_noLevelError (hr : afterInstr env b t = .error e t') : ¬UnknownLevel e := by
  have hends : Ends (OnHart (Unchanged Hart.prv)) (fun e _ _ => ¬UnknownLevel e)
      (afterInstr env b) :=
    (made_afterInstr b).ends (fun _ _ _ _ _ he => he) fun hm =>
      hm.ends (fun _ => not_unknownLevel_assertion) fun hm =>
        .of_respects (respects_stepPart_prv env hm) fun _ _ _ hr => stepPart_noLevelError henv hm hr
  exact hends.error hr

/-! ### Trap entry -/

theorem switch_noLevelError {m : Mode} {h h' : Hart W}
    (hr : switchToTrapHandler env m.level h = .error e h') : ¬UnknownLevel e :=
  access_noLevelError (henv.reads .atomicUnlock) (switchToTrapHandler_unlock hr)

omit henv in
theorem prepareTrap_noLevelError {x : SimulationTrap} {h h' : Hart W}
    (hr : prepareTrap x h = .error e h') : ¬UnknownLevel e := by
  rcases prepareTrap_error hr with rfl | rfl
  · rintro ⟨mode, hmode⟩
    cases hmode
  · exact not_unknownLevel_assertion

omit henv in
theorem prepareInterrupt_noLevelError {i : PendingInterrupts} {m : Mode}
    (hi : i.targetMode = m.level) {h h' : Hart W} (hr : prepareInterrupt i h = .error e h') :
    ¬UnknownLevel e := by
  cases hfirst : firstInterrupt i.pending with
  | none =>
    simp only [prepareInterrupt, hfirst] at hr
    cases hr
    rintro ⟨mode, hmode⟩
    injection hmode with hmode
    revert mode
    decide
  | some exc =>
    simp only [prepareInterrupt, hfirst, hi] at hr
    cases m <;> cases hr

theorem catchTrap_noLevelError {e₁ : Raise} {h h' : Hart W} (he : ¬UnknownLevel e₁)
    (hr : catchTrap env e₁ h = .error e h') : ¬UnknownLevel e := by
  cases e₁ with
  | trap x =>
    rcases bind_eq_error.1 hr with hprepare | ⟨target, h₁, hprepare, hswitch⟩
    · exact prepareTrap_noLevelError hprepare
    · obtain ⟨m, -, -, rfl, -, -⟩ := prepareTrap_ok hprepare
      exact switch_noLevelError henv hswitch
  | _ =>
    cases hr
    exact he

theorem deliverInterrupt_noLevelError {h h' : Hart W}
    (hr : deliverInterrupt env h = .error e h') : ¬UnknownLevel e := by
  obtain ⟨i, m, htarget, hprepare | ⟨h₁, -, hswitch⟩⟩ := deliverInterrupt_error hr
  · exact prepareInterrupt_noLevelError htarget hprepare
  · exact switch_noLevelError henv hswitch

/-! ### One step -/

theorem takeStep_noLevelError (hprv : IsLevel t.hart.prv) (hr : takeStep env b t = .error e t') :
    ¬UnknownLevel e := by
  have hcatch {e₁ : Raise} {t₁ : TimedHart W} (he₁ : ¬UnknownLevel e₁)
      (hr : lift (catchTrap env e₁) t₁ = .error e t') : ¬UnknownLevel e := by
    obtain ⟨h', hr, -⟩ := lift_error hr
    exact catchTrap_noLevelError henv he₁ hr
  rw [takeStep_eq] at hr
  cases hexec : execStep env b t with
  | ok u t₁ =>
    simp only [hexec] at hr
    cases hdeliver : lift (deliverInterrupt env) t₁ with
    | ok u t₂ =>
      simp only [hdeliver] at hr
      cases hr
    | error e₂ t₂ =>
      simp only [hdeliver] at hr
      obtain ⟨h', hdeliver, -⟩ := lift_error hdeliver
      exact hcatch (deliverInterrupt_noLevelError henv hdeliver) hr
  | error e₁ t₁ =>
    simp only [hexec] at hr
    exact hcatch (execStep_noLevelError b henv hprv hexec) hr

omit henv

/-- An instruction other than an `MRET` to the reserved level leads to a known one. -/
theorem exec_isLevel (i : Instruction) {op : Opcode} (hprv : IsLevel t.hart.prv)
    (hmret : op = .mret → Mstatus.mpp.get t.hart.csrs.mstatus ≠ 2)
    (hr : exec env b i op t = .ok () t') : IsLevel t'.hart.prv := by
  by_cases hop : IsReturn op
  · rw [exec_return env b i hop] at hr
    obtain ⟨h', hshared, rfl⟩ := lift_ok hr
    rcases return_cases env i hop t.hart with ⟨m, hm, hreturn⟩ | hillegal
    · cases hreturn.symm.trans hshared
      cases m with
      | user => exact ⟨.user, rfl⟩
      | supervisor => exact isLevel_setWidth _
      | machine => exact isLevel_of_ne (hmret (hm rfl))
    · cases hillegal.symm.trans hshared
  · have hkeep := (respects_exec_prv env b i hop).rel t
    rw [hr] at hkeep
    rwa [show t'.hart.prv = t.hart.prv from hkeep]

theorem execStep_isLevel (hprv : IsLevel t.hart.prv)
    (hmret : ∀ h, fetch env t.hart = .ok () h → h.op = .mret →
      Mstatus.mpp.get h.csrs.mstatus ≠ 2)
    (hr : execStep env b t = .ok () t') : IsLevel t'.hart.prv := by
  rw [execStep_eq] at hr
  cases hf : fetch env t.hart with
  | ok u h =>
    rw [hf] at hr
    refine exec_isLevel (t := { t with hart := h }) b h.instr ?_ (hmret h hf) hr
    rwa [show h.prv = t.hart.prv from fetch_prv env hf]
  | error e h =>
    rw [hf] at hr
    cases hr

theorem catchTrap_isLevel {e : Raise} {h h' : Hart W} (hr : catchTrap env e h = .ok () h') :
    IsLevel h'.prv := by
  obtain ⟨m, hentry⟩ := catchTrap_entry hr
  exact ⟨m, hentry.prv⟩

theorem deliverInterrupt_isLevel {h h' : Hart W} (hprv : IsLevel h.prv)
    (hr : deliverInterrupt env h = .ok () h') : IsLevel h'.prv := by
  rcases deliverInterrupt_entry hr with ⟨-, rfl⟩ | ⟨m, hentry⟩
  · exact hprv
  · exact ⟨m, hentry.prv⟩

theorem takeStep_isLevel (hprv : IsLevel t.hart.prv)
    (hmret : ∀ h, fetch env t.hart = .ok () h → h.op = .mret →
      Mstatus.mpp.get h.csrs.mstatus ≠ 2)
    (hr : takeStep env b t = .ok () t') : IsLevel t'.hart.prv := by
  rcases takeStep_cases hr with ⟨t₁, h₁, hexec, hdeliver, rfl⟩ |
    ⟨t₁, e, h₁, h₂, -, -, hcatch, rfl⟩ | ⟨t₁, e, h₁, -, hcatch, rfl⟩
  · exact deliverInterrupt_isLevel (execStep_isLevel b hprv hmret hexec) hdeliver
  · exact catchTrap_isLevel hcatch
  · exact catchTrap_isLevel hcatch

theorem afterInstr_prv (hr : afterInstr env b t = .ok () t') : t'.hart.prv = t.hart.prv := by
  have hkeep := (respects_afterInstr_prv env b).rel t
  rwa [hr] at hkeep

theorem runStep_isLevel (hprv : IsLevel t.hart.prv) (hok : ¬ReturnsToReserved env t)
    (hr : runStep env b t = .ok () t') : IsLevel t'.hart.prv := by
  rcases runStep_ok hr with ⟨-, rfl⟩ | ⟨hbp, t₁, htake, hafter⟩
  · exact hprv
  · rw [afterInstr_prv b hafter]
    refine takeStep_isLevel (t := { t with hart := startInstr t.hart }) b hprv ?_ htake
    intro h hf hop hmpp
    exact hok ⟨hbp, h, hf, hop, hmpp⟩

include henv in
theorem runStep_noLevelError (hprv : IsLevel t.hart.prv) (hr : runStep env b t = .error e t') :
    ¬UnknownLevel e := by
  rcases runStep_error hr with rfl | htake | ⟨t₁, htake, hafter⟩
  · exact not_unknownLevel_assertion
  · exact takeStep_noLevelError (t := { t with hart := startInstr t.hart }) b henv hprv htake
  · exact afterInstr_noLevelError b henv hafter

end

/-! ### Main result -/

theorem isLevel_of_run {t₀ t : TimedHart W} (hstart : IsLevel t₀.hart.prv)
    (hrun : Run env b (fun t => ¬ReturnsToReserved env t) t₀ t) : IsLevel t.hart.prv := by
  induction hrun with
  | refl => exact hstart
  | tail _ hstep ih => exact runStep_isLevel b ih hstep.1 hstep.2

/-- In every run from machine mode in which no step executes an `MRET` with the reserved value in
`mstatus.MPP`, all levels are known. -/
theorem levelKnown_of_run (henv : env.NoLevelErrors) {t₀ t : TimedHart W}
    (hstart : t₀.hart.prv = machineMode)
    (hrun : Run env b (fun t => ¬ReturnsToReserved env t) t₀ t) : LevelKnown env b t := by
  have hprv := isLevel_of_run b ⟨.machine, hstart⟩ hrun
  exact ⟨hprv, fun e t' hr => runStep_noLevelError b henv hprv hr⟩

/-- Bare memory, with a decoder that also knows `CSRRW` and `ECALL`. -/
def Env.bareSystem : Env BareMemory :=
  { Env.bare with
    decodeNormal := fun i =>
      if i.data = 0x00000073 then .ecall
      else if i.data.extractLsb' 0 7 = 0b1110011 ∧ i.funct3 = 0b001 then .csrrw
      else bareDecode i }

theorem noLevelErrors_bareSystem : Env.bareSystem.NoLevelErrors where
  reads hf := by
    cases hf <;> (intro view w e w' hr; cases hr)
  stores hf := by
    cases hf <;> first
      | (intro view w e w' hr; cases hr)
      | cases ‹Env.bareSystem.executeSyscall = some _›
  amo _ _ _ := by
    intro view w e w' hr
    cases hr

/-- A hart in machine mode on `CSRRW mstatus`, `MRET`, `ECALL`, with the reserved value in the
register that is written. -/
def writesReserved : TimedHart BareMemory :=
  let program : BareMemory := fun addr =>
    if addr = 0 then 0x30029073 else if addr = 4 then 0x30200073 else 0x00000073
  let h := Hart.reset machineMode 0x00100100 0 program
  ⟨{ h with regs := Function.update h.regs 5 0x1000, csrs := { h.csrs with mepc := 8 } }, .empty 0⟩

/-- The state after a step. -/
def afterStep (t : TimedHart BareMemory) : TimedHart BareMemory :=
  final (runStep Env.bareSystem .plain t)

theorem levelKnown_write : LevelKnown Env.bareSystem .plain (afterStep writesReserved) := by
  have hwrite : ¬ReturnsToReserved Env.bareSystem writesReserved := by
    rintro ⟨-, h, hf, hop, -⟩
    cases hf
    cases hop
  have hrun : Run Env.bareSystem .plain (fun t => ¬ReturnsToReserved Env.bareSystem t)
      writesReserved (afterStep writesReserved) := .single ⟨hwrite, rfl⟩
  exact levelKnown_of_run .plain noLevelErrors_bareSystem rfl hrun

/-- `ECALL` at the reserved level ends the simulation. -/
theorem not_levelKnown_reserved :
    ¬∀ t, Run Env.bareSystem .plain (fun _ => True) writesReserved t →
      LevelKnown Env.bareSystem .plain t := by
  intro hknown
  have hrun : Run Env.bareSystem .plain (fun _ => True) writesReserved
      (afterStep (afterStep writesReserved)) := (Relation.ReflTransGen.single ⟨trivial, rfl⟩).tail
    ⟨trivial, rfl⟩
  have herror : runStep Env.bareSystem .plain (afterStep (afterStep writesReserved)) =
    .error (.runtimeError ("unknown privilege level " ++ toString (2 : PrivilegeLevel).toNat))
      (afterStep (afterStep (afterStep writesReserved))) := rfl
  exact (hknown _ hrun).2 _ _ herror ⟨2, rfl⟩

end Vcil.Iss
