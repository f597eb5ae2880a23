import Vcil.Iss.Trap

/-!
# The three modes

Each mode has trap registers of its own: CSRs, and a few bits of the one `mstatus`.

* `Mode`, `Mode.level`: the modes and their privilege levels;
* `Csrs.setCause`, `Csrs.enter`, `Csrs.leave`: what a trap of a mode writes;
* `prepareTrap_ok`, `prepareInterrupt_ok`, `switchToTrapHandler_eq`, `returnFromTrapHandler_eq`: the
  four functions in these terms.
-/

namespace Vcil.Iss

open Fallible

/-- The three modes of a hart. -/
inductive Mode
  | user | supervisor | machine
  deriving DecidableEq, Repr

namespace Mode

/-- The privilege level of a mode. -/
def level : Mode → PrivilegeLevel
  | user => userMode
  | supervisor => supervisorMode
  | machine => machineMode

instance : LT Mode := ⟨fun m m' => m.level < m'.level⟩

instance (m m' : Mode) : Decidable (m < m') := inferInstanceAs (Decidable (m.level < m'.level))

instance : IsTrans Mode fun m m' => m < m' := ⟨fun _ _ _ h h' => BitVec.lt_trans h h'⟩

instance : Std.Irrefl fun m m' : Mode => m < m' := ⟨fun m => BitVec.lt_irrefl m.level⟩

end Mode

theorem le_machineMode (p : PrivilegeLevel) : p ≤ machineMode := by
  revert p
  decide

/-! ### What the four functions write -/

namespace Csrs

variable (c : Csrs)

/-- The cause register of the mode. -/
def setCause (cause : Word) : Mode → Csrs
  | .machine => { c with mcause := cause }
  | .supervisor => { c with scause := cause }
  | .user => { c with ucause := cause }

/-- The trap value register of the mode. -/
def setTval (tval : Word) : Mode → Csrs
  | .machine => { c with mtval := tval }
  | .supervisor => { c with stval := tval }
  | .user => { c with utval := tval }

/-- The address of the handler. -/
def handler : Mode → Word
  | .machine => handlerAddress c.mtvec c.mcause
  | .supervisor => handlerAddress c.stvec c.scause
  | .user => handlerAddress c.utvec c.ucause

/-- The interrupted program is saved. -/
def enter (pp : PrivilegeLevel) (pc : Word) : Mode → Csrs
  | .machine => { c with
      mepc := pc
      mstatus := Mstatus.mpp.put pp
        (Mstatus.mie.put 0#1 (Mstatus.mpie.put (Mstatus.mie.get c.mstatus) c.mstatus)) }
  | .supervisor => { c with
      sepc := pc
      mstatus := Mstatus.spp.put (pp.setWidth Mstatus.spp.len)
        (Mstatus.sie.put 0#1 (Mstatus.spie.put (Mstatus.sie.get c.mstatus) c.mstatus)) }
  | .user => { c with
      uepc := pc
      mstatus := Mstatus.uie.put 0#1 (Mstatus.upie.put (Mstatus.uie.get c.mstatus) c.mstatus) }

/-- The interrupt bits are unstacked. -/
def leave : Mode → Csrs
  | .machine => { c with
      mstatus := Mstatus.mpp.put (if hasExt c.misa .u then userMode else machineMode)
        (Mstatus.mpie.put 1#1 (Mstatus.mie.put (Mstatus.mpie.get c.mstatus) c.mstatus)) }
  | .supervisor => { c with
      mstatus := Mstatus.spp.put
        ((if hasExt c.misa .u then userMode else supervisorMode).setWidth Mstatus.spp.len)
        (Mstatus.spie.put 1#1 (Mstatus.sie.put (Mstatus.spie.get c.mstatus) c.mstatus)) }
  | .user => { c with
      mstatus := Mstatus.upie.put 1#1 (Mstatus.uie.put (Mstatus.upie.get c.mstatus) c.mstatus) }

/-- The privilege level before the trap. -/
def previousLevel : Mode → PrivilegeLevel
  | .machine => Mstatus.mpp.get c.mstatus
  | .supervisor => (Mstatus.spp.get c.mstatus).setWidth 2
  | .user => userMode

/-- The saved address of the mode. -/
def epc : Mode → Word
  | .machine => c.mepc
  | .supervisor => c.sepc
  | .user => c.uepc

end Csrs

section

variable {W : Type}

/-- The hart in the handler of the mode. -/
def Hart.enter (h : Hart W) (m : Mode) : Hart W :=
  { h with prv := m.level, pc := h.csrs.handler m, csrs := h.csrs.enter h.prv h.pc m }

/-- The hart after the return from the handler of the mode. -/
def Hart.leave (h : Hart W) (m : Mode) : Hart W :=
  { h with prv := h.csrs.previousLevel m, pc := h.csrs.epc m, csrs := h.csrs.leave m }

theorem returnFromTrapHandler_eq (m : Mode) (h : Hart W) :
    returnFromTrapHandler m.level h = .ok () (h.leave m) := by
  cases m <;> rfl

theorem releaseLrScReservation_ok {env : Env W} {u : Unit} {h h' : Hart W}
    (hr : releaseLrScReservation env h = .ok u h') :
    h' = ({ h with lrScCounter := 0 } : Hart W).setWorld
      (env.atomicUnlock h.memView h.world).2 := by
  obtain ⟨_, h₁, hcounter, hr⟩ := bind_eq_ok.1 hr
  cases hcounter
  obtain ⟨w, hunlock, rfl⟩ := access_eq_ok.1 hr
  have hworld : (env.atomicUnlock h.memView h.world).2 = w := congrArg Prod.snd hunlock
  rw [hworld]

/-- The entry into a handler succeeds exactly if the bus is unlocked. -/
theorem switchToTrapHandler_eq (env : Env W) (m : Mode) (h : Hart W) :
    switchToTrapHandler env m.level h = match releaseLrScReservation env h with
      | .ok _ h => .ok () (h.enter m)
      | .error e h => .error e h := by
  simp only [switchToTrapHandler, bind, EStateM.bind]
  cases releaseLrScReservation env h with
  | ok _ h => cases m <;> rfl
  | error e h => rfl

/-- An entry fails only where the bus fails to unlock. -/
theorem switchToTrapHandler_unlock {env : Env W} {m : Mode} {e : Raise} {h h' : Hart W}
    (hr : switchToTrapHandler env m.level h = .error e h') :
    access env.atomicUnlock { h with lrScCounter := 0 } = .error e h' := by
  rw [switchToTrapHandler_eq] at hr
  cases hrelease : releaseLrScReservation env h with
  | ok u h₁ =>
    rw [hrelease] at hr
    cases hr
  | error e₁ h₁ =>
    rw [hrelease] at hr
    cases hr
    rcases bind_eq_error.1 hrelease with hcounter | ⟨_, _, hcounter, hunlock⟩
    · cases hcounter
    · cases hcounter
      exact hunlock

/-- An entry that fails has ended the LR/SC window. -/
theorem switchToTrapHandler_error {env : Env W} {m : Mode} {e : Raise} {h h' : Hart W}
    (hr : switchToTrapHandler env m.level h = .error e h') :
    h' = ({ h with lrScCounter := 0 } : Hart W).setWorld
      (env.atomicUnlock h.memView h.world).2 := by
  obtain ⟨w, hcall, rfl⟩ := access_eq_error.1 (switchToTrapHandler_unlock hr)
  have hworld : (env.atomicUnlock h.memView h.world).2 = w := congrArg Prod.snd hcall
  rw [hworld]

/-- The cause and the value of a trap are recorded. -/
theorem recordTrap_ok {f : Csrs → Csrs} {g : Word → Csrs → Csrs} {mtval : BitVec 64}
    {x y : PrivilegeLevel} {h h' : Hart W}
    (hr : (do
      setCsrs f
      let tval ← lexicalCast mtval
      setCsrs (g tval)
      return x : M W PrivilegeLevel) h = .ok y h') :
    y = x ∧ ∃ tval, h' = { h with csrs := g tval (f h.csrs) } := by
  obtain ⟨_, h₁, hf, hr⟩ := bind_eq_ok.1 hr
  cases hf
  obtain ⟨tval, h₂, hcast, hr⟩ := bind_eq_ok.1 hr
  unfold lexicalCast at hcast
  split_ifs at hcast
  · cases hcast
    cases hr
    exact ⟨rfl, _, rfl⟩
  · cases hcast

theorem recordTrap_error {f : Csrs → Csrs} {g : Word → Csrs → Csrs} {mtval : BitVec 64}
    {x : PrivilegeLevel} {e : Raise} {h h' : Hart W}
    (hr : (do
      setCsrs f
      let tval ← lexicalCast mtval
      setCsrs (g tval)
      return x : M W PrivilegeLevel) h = .error e h') : e = .badLexicalCast := by
  rcases bind_eq_error.1 hr with hf | ⟨_, h₁, -, hr⟩
  · cases hf
  · rcases bind_eq_error.1 hr with hcast | ⟨tval, h₂, -, hr⟩
    · unfold lexicalCast at hcast
      split_ifs at hcast
      · cases hcast
      · cases hcast
        rfl
    · cases hr

/-- Only a value that is too large, or a level that is no mode, stops an exception. -/
theorem prepareTrap_error {x : SimulationTrap} {e : Raise} {h h' : Hart W}
    (hr : prepareTrap x h = .error e h') : e = .badLexicalCast ∨ e = .assertion := by
  rcases bind_eq_error.1 hr with hpc | ⟨_, h₁, -, hr⟩
  · cases hpc
  rcases bind_eq_error.1 hr with hget | ⟨_, _, -, hr⟩
  · cases hget
  split_ifs at hr
  · exact .inl (recordTrap_error hr)
  · exact .inl (recordTrap_error hr)
  · rcases bind_eq_error.1 hr with hassert | ⟨_, h₂, -, hr⟩
    · rw [assert_eq] at hassert
      split_ifs at hassert
      cases hassert
      exact .inr rfl
    · exact .inl (recordTrap_error hr)

/-- An exception goes to a mode, and from a mode not to one below. -/
theorem prepareTrap_ok {e : SimulationTrap} {x : PrivilegeLevel} {h h' : Hart W}
    (hr : prepareTrap e h = .ok x h') : ∃ m cause tval, x = m.level ∧
      (∀ m₀ : Mode, h.prv = m₀.level → m₀.level ≤ m.level) ∧
      h' = { h with pc := h.lastPc, csrs := (h.csrs.setCause cause m).setTval tval m } := by
  obtain ⟨_, h₁, hpc, hr⟩ := bind_eq_ok.1 hr
  cases hpc
  obtain ⟨_, _, hget, hr⟩ := bind_eq_ok.1 hr
  cases hget
  split_ifs at hr with hmachine hsupervisor
  · obtain ⟨rfl, tval, rfl⟩ := recordTrap_ok hr
    exact ⟨.machine, _, tval, rfl, fun m₀ _ => le_machineMode _, rfl⟩
  · obtain ⟨rfl, tval, rfl⟩ := recordTrap_ok hr
    refine ⟨.supervisor, _, tval, rfl, fun m₀ hm₀ => ?_, rfl⟩
    cases m₀ with
    | machine => exact absurd (Or.inl hm₀) hmachine
    | supervisor => decide
    | user => decide
  · obtain ⟨_, h₁, hassert, hr⟩ := bind_eq_ok.1 hr
    rw [assert_eq] at hassert
    split_ifs at hassert with huser
    cases hassert
    obtain ⟨rfl, tval, rfl⟩ := recordTrap_ok hr
    refine ⟨.user, _, tval, rfl, fun m₀ hm₀ => ?_, rfl⟩
    have hlevel : h.prv = userMode := by simp_all
    rw [← hm₀, hlevel]
    exact BitVec.le_refl _

/-- An interrupt goes to a mode not below the current one. -/
theorem computePendingInterrupts_mode {h : Hart W} {i : PendingInterrupts}
    (hi : computePendingInterrupts h = some i) : ∃ m : Mode, i.targetMode = m.level ∧
      h.prv ≤ m.level := by
  simp only [computePendingInterrupts] at hi
  split_ifs at hi with hnone hmachine hsupervisor huser <;> cases hi
  · exact ⟨.machine, rfl, le_machineMode _⟩
  · refine ⟨.supervisor, rfl, ?_⟩
    rcases hsupervisor.2 with hlt | ⟨heq, -⟩
    · exact BitVec.le_of_lt hlt
    · exact BitVec.le_of_eq heq
  · exact ⟨.user, rfl, BitVec.le_of_eq huser.2.1⟩

theorem prepareInterrupt_ok {i : PendingInterrupts} {m : Mode} (hi : i.targetMode = m.level)
    {h h' : Hart W} (hr : prepareInterrupt i h = .ok () h') :
    ∃ cause, h' = { h with csrs := h.csrs.setCause cause m } := by
  cases hfirst : firstInterrupt i.pending with
  | none =>
    simp only [prepareInterrupt, hfirst] at hr
    cases hr
  | some exc =>
    simp only [prepareInterrupt, hfirst, hi] at hr
    cases m
    all_goals
      cases hr
      exact ⟨_, rfl⟩

theorem prepareInterrupt_error {i : PendingInterrupts} {m : Mode} (hi : i.targetMode = m.level)
    {e : Raise} {h h' : Hart W} (hr : prepareInterrupt i h = .error e h') : h' = h := by
  cases hfirst : firstInterrupt i.pending with
  | none =>
    simp only [prepareInterrupt, hfirst] at hr
    cases hr
    rfl
  | some exc =>
    simp only [prepareInterrupt, hfirst, hi] at hr
    cases m <;> cases hr

end

end Vcil.Iss
