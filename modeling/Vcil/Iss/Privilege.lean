import Vcil.Iss.BareMetal
import Vcil.Iss.Frames
import Vcil.Iss.Modes

/-!
# Raising the privilege level

Only the entry into a trap handler should raise the privilege level.  `MRET` checks nothing, and
`SRET` only that the extension is there and, in supervisor mode, `TSR`; they return to whatever
level `mstatus` holds, from any mode.

* `PrivilegeRule`: a step without a handler does not raise the level, and a return from a level
  above the current one traps;
* `ReturnsAllowed`: the instruction is no return of that kind;
* `privilegeRule_iff`: the rule holds exactly then.
-/

namespace Vcil.Iss

open Fallible

variable {W : Type} (env : Env W) (b : Build)

/-! ### The rule -/

/-- The mode a return instruction returns from. -/
def returnLevel : Opcode → Option PrivilegeLevel
  | .uret => some userMode
  | .sret => some supervisorMode
  | .mret => some machineMode
  | _ => none

/-- A step that enters no handler leaves the privilege level where it was, or lowers it. -/
def KeepsPrivilege (t : TimedHart W) : Prop :=
  ∀ t', runStep env b t = .ok () t' → ¬EntersHandler env b t → t'.hart.prv ≤ t.hart.prv

/-- A return from a mode above the current one, if it is executed, raises an illegal-instruction
trap. -/
def ReturnsTrap (t : TimedHart W) : Prop :=
  Starts t → ∀ h, fetch env (startInstr t.hart) = .ok () h →
    ∀ level, returnLevel h.op = some level → t.hart.prv < level → ∃ t', execStep env b { t with hart := startInstr t.hart } =
      .error (.trap ⟨excIllegalInstr, h.instr.data.setWidth 64⟩) t'

def PrivilegeRule (t : TimedHart W) : Prop := KeepsPrivilege env b t ∧ ReturnsTrap env b t

/-- The instruction that is executed is no `MRET` outside machine mode and no `SRET` in user mode,
where the hart has a supervisor mode. -/
def ReturnsAllowed (t : TimedHart W) : Prop :=
  Starts t → ∀ h, fetch env (startInstr t.hart) = .ok () h →
    (h.op = .mret → h.prv = machineMode) ∧
    (h.op = .sret → hasExt h.csrs.misa .s = true → h.prv ≠ userMode)

/-! ### The returns -/

section Returns

variable (h : Hart W)

theorem uret_ok {h' : Hart W} (hr : uret h = .ok () h') : h'.prv = userMode := by
  unfold uret at hr
  rw [illegalIf_bind] at hr
  split_ifs at hr
  cases hr
  rfl

theorem sret_eq : sret h =
    if !hasExt h.csrs.misa .s || (sMode h && Mstatus.tsr.isSet h.csrs.mstatus) then
      .error (.trap ⟨excIllegalInstr, h.instr.data.setWidth 64⟩) h
    else returnToSpp h := by
  unfold sret
  rw [illegalIf_bind]
  rfl

theorem sret_ok {h' : Hart W} (hr : sret h = .ok () h') :
    hasExt h.csrs.misa .s = true ∧ h'.prv = (Mstatus.spp.get h.csrs.mstatus).setWidth 2 := by
  rw [sret_eq] at hr
  split_ifs at hr with hc
  cases hr
  simp only [Bool.or_eq_true, Bool.not_eq_true', not_or, Bool.not_eq_false] at hc
  exact ⟨hc.1, rfl⟩

end Returns

/-! ### One instruction -/

theorem lt_machineMode {p : PrivilegeLevel} (h : p ≠ machineMode) : p < machineMode := by
  revert p
  decide

theorem setWidth_le_of_ne {p : PrivilegeLevel} (h : p ≠ userMode) (spp : BitVec 1) :
    spp.setWidth 2 ≤ p := by
  revert p spp
  decide

theorem respects_exec_prv (i : Instruction) {op : Opcode} (hop : ¬IsReturn op) :
    Respects (OnHart (Unchanged Hart.prv)) (exec env b i op) :=
  respects_exec b i hop fun _ _ => rfl

/-- An allowed instruction does not raise the level. -/
theorem exec_prv_le {t t' : TimedHart W} (hm : t.hart.op = .mret → t.hart.prv = machineMode)
    (hs : t.hart.op = .sret → hasExt t.hart.csrs.misa .s = true → t.hart.prv ≠ userMode)
    (hr : exec env b t.hart.instr t.hart.op t = .ok () t') : t'.hart.prv ≤ t.hart.prv := by
  by_cases hop : IsReturn t.hart.op
  · rw [exec_return env b _ hop] at hr
    obtain ⟨h', hr', rfl⟩ := lift_ok hr
    rcases hop with hop | hop | hop <;> rw [hop] at hr'
    · rw [show h'.prv = userMode from uret_ok _ hr']
      exact BitVec.le_def.2 (Nat.zero_le _)
    · obtain ⟨hext, hprv⟩ := sret_ok _ hr'
      rw [show h'.prv = _ from hprv]
      exact setWidth_le_of_ne (hs hop hext) _
    · rw [hm hop]
      exact le_machineMode _
  · have hkeep := (respects_exec_prv env b t.hart.instr hop).rel t
    rw [hr] at hkeep
    rw [show t'.hart.prv = t.hart.prv from hkeep]
    exact BitVec.le_refl _

/-! ### One step -/

theorem fetch_prv {h h' : Hart W} (hf : fetch env h = .ok () h') : h'.prv = h.prv := by
  have hkeep := (respects_fetch : Respects (Unchanged Hart.prv) (fetch env)).rel h
  rwa [hf] at hkeep

theorem execStep_prv_le {t t' : TimedHart W} (hstarts : Starts t) (hallowed : ReturnsAllowed env t)
    (hr : execStep env b { t with hart := startInstr t.hart } = .ok () t') :
    t'.hart.prv ≤ t.hart.prv := by
  rw [execStep_eq] at hr
  cases hf : fetch env (startInstr t.hart) with
  | ok u h =>
    simp only [hf] at hr
    obtain ⟨hm, hs⟩ := hallowed hstarts h hf
    have hle := exec_prv_le env b (t := { t with hart := h }) hm hs hr
    rwa [show h.prv = t.hart.prv from fetch_prv env (h := startInstr t.hart) hf] at hle
  | error e h =>
    simp only [hf] at hr
    cases hr

theorem respects_stepPart_prv {α : Type} {m : M W α} (h : StepPart env α m) :
    Respects (Unchanged Hart.prv) m := by
  cases h with
  | quiet h => exact respects_quiet h
  | world f => infer_instance
  | unlock => infer_instance
  | finishInstr => exact .modify fun _ => rfl
  | addInstr => exact .modify fun _ => rfl
  | addCycles n => exact .modify fun _ => rfl
  | setCycles cycles => exact .modify fun _ => rfl

theorem respects_afterInstr_prv : Respects (OnHart (Unchanged Hart.prv)) (afterInstr env b) :=
  (made_afterInstr b).respects fun h => h.respects (respects_stepPart_prv env) fun _ _ => rfl

theorem keepsPrivilege_of_allowed {t : TimedHart W} (hallowed : ReturnsAllowed env t) :
    KeepsPrivilege env b t := by
  intro t' hrun hno
  rcases runStep_ok hrun with ⟨-, rfl⟩ | ⟨hbreak, t₁, htake, hafter⟩
  · exact BitVec.le_refl _
  · have hstarts := starts_of_ok hrun hbreak
    have hexec := takeStep_ok hno htake
    have hkeep := (respects_afterInstr_prv env b).rel t₁
    rw [hafter] at hkeep
    rw [show t'.hart.prv = t₁.hart.prv from hkeep]
    exact execStep_prv_le env b hstarts hallowed hexec

/-! ### When the rule holds -/

theorem ne_machineMode_of_lt {p : PrivilegeLevel} (h : p < supervisorMode) : p = userMode := by
  revert p
  decide

theorem returnsTrap_of_allowed {t : TimedHart W} (hallowed : ReturnsAllowed env t) :
    ReturnsTrap env b t := by
  intro hstarts h hf level hlevel hlt
  obtain ⟨hm, hs⟩ := hallowed hstarts h hf
  have hprv : h.prv = t.hart.prv := fetch_prv env (h := startInstr t.hart) hf
  rw [← hprv] at hlt
  rw [execStep_of_fetch env b (t := { t with hart := startInstr t.hart }) hf]
  cases hop : h.op <;> rw [hop] at hlevel hm hs <;> cases hlevel
  case uret => exact absurd hlt (BitVec.not_lt_zero)
  case sret =>
    have huser := ne_machineMode_of_lt hlt
    have hext : hasExt h.csrs.misa .s = false := by
      by_contra hext
      exact hs rfl (by simpa using hext) huser
    rw [exec_return env b _ (.inr (.inl rfl))]
    refine ⟨{ t with hart := h }, ?_⟩
    show lift sret { t with hart := h } = _
    unfold lift
    rw [sret_eq, hext]
    rfl
  case mret =>
    rw [hm rfl] at hlt
    exact absurd hlt (BitVec.lt_irrefl _)

theorem allowed_of_returnsTrap {t : TimedHart W} (htrap : ReturnsTrap env b t) :
    ReturnsAllowed env t := by
  intro hstarts h hf
  have hprv : h.prv = t.hart.prv := fetch_prv env (h := startInstr t.hart) hf
  have hexec : execStep env b { t with hart := startInstr t.hart } =
      exec env b h.instr h.op { t with hart := h } :=
    execStep_of_fetch env b (t := { t with hart := startInstr t.hart }) hf
  constructor
  · intro hop
    by_contra hne
    obtain ⟨t', ht'⟩ :=
      htrap hstarts h hf machineMode (by rw [hop]; rfl) (hprv ▸ lt_machineMode hne)
    rw [hexec, hop, exec_return env b _ (.inr (.inr rfl))] at ht'
    cases ht'
  · intro hop hext huser
    have hlt : t.hart.prv < supervisorMode := by rw [← hprv, huser]; decide
    obtain ⟨t', ht'⟩ := htrap hstarts h hf supervisorMode (by rw [hop]; rfl) hlt
    rw [hexec, hop, exec_return env b _ (.inr (.inl rfl))] at ht'
    have hsret : sret h = returnToSpp h := by
      rw [sret_eq, hext, sMode, huser]
      rfl
    change lift sret { t with hart := h } = _ at ht'
    unfold lift at ht'
    simp only [hsret] at ht'
    cases ht'

/-! ### Main result -/

/-- In any state of the hart and for any instruction, the privilege level is raised by trap entry
only and returns from a mode above the current one trap, exactly when the instruction that is
executed is no `MRET` outside machine mode and no `SRET` in user mode with a supervisor mode
present. -/
theorem privilegeRule_iff (t : TimedHart W) : PrivilegeRule env b t ↔ ReturnsAllowed env t := by
  constructor
  · rintro ⟨-, htrap⟩
    exact allowed_of_returnsTrap env b htrap
  · intro hallowed
    exact ⟨keepsPrivilege_of_allowed env b hallowed, returnsTrap_of_allowed env b hallowed⟩

/-- A hart in user mode, with `mstatus.MPP` at machine mode, on a memory of `MRET`s. -/
def userMret : TimedHart BareMemory where
  hart := .reset userMode 0x00100100 0x1800 fun _ => 0x30200073
  pipeline := .empty 0

/-- Firmware that drops to user mode without clearing `MPP` can be left with one `MRET`. -/
theorem userMret_raises : ¬PrivilegeRule Env.bare .plain userMret := by
  rintro ⟨hkeeps, -⟩
  have hle := hkeeps _ rfl fun henters => henters rfl
  revert hle
  decide

end Vcil.Iss
