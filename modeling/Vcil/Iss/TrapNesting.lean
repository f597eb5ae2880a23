import Vcil.Iss.BareMetal
import Vcil.Iss.Modes
import Vcil.Lib.LevelStack

/-!
# Nested traps

A trap saves what it interrupts in registers of its mode.  So handlers can be interrupted by traps to
higher modes, and each return finds what its trap has saved.

* `TrapRegs`, `OthersKept m`: the trap registers of a mode, and that only those of `m` have changed;
* `Context`, `Entry`: what a trap saves, and the entry into a handler;
* `Nested fs h`: a hart under the handlers of `fs`;
* `Nested.unwinds`: the return from the innermost one resumes what it has interrupted.
-/

namespace Vcil.Iss

open Fallible LevelStack

variable {W : Type}

/-! ### The registers of a mode -/

/-- The CSRs of one mode that trap handling uses, and its bits of `mstatus`. -/
structure TrapRegs where
  tvec : Word
  epc : Word
  cause : Word
  tval : Word
  ideleg : Word
  edeleg : Word
  ie : BitVec 1
  pie : BitVec 1
  pp : PrivilegeLevel
  deriving DecidableEq, Repr

/-- User mode delegates nothing, and its handlers return to user mode. -/
def Csrs.trapRegs (c : Csrs) : Mode → TrapRegs
  | .machine => ⟨c.mtvec, c.mepc, c.mcause, c.mtval, c.mideleg, c.medeleg,
      Mstatus.mie.get c.mstatus, Mstatus.mpie.get c.mstatus, Mstatus.mpp.get c.mstatus⟩
  | .supervisor => ⟨c.stvec, c.sepc, c.scause, c.stval, c.sideleg, c.sedeleg,
      Mstatus.sie.get c.mstatus, Mstatus.spie.get c.mstatus,
      (Mstatus.spp.get c.mstatus).setWidth 2⟩
  | .user => ⟨c.utvec, c.uepc, c.ucause, c.utval, 0, 0,
      Mstatus.uie.get c.mstatus, Mstatus.upie.get c.mstatus, userMode⟩

/-- Of the trap registers, only those of `m` may differ; the scratch registers, which only software
uses, are among `others`. -/
structure OthersKept (m : Mode) (c c' : Csrs) : Prop where
  trapRegs : ∀ m', m' ≠ m → c'.trapRegs m' = c.trapRegs m'
  mie : c'.mie = c.mie
  others : c'.others = c.others

theorem OthersKept.trans {m : Mode} {c c' c'' : Csrs} (h₁ : OthersKept m c c')
    (h₂ : OthersKept m c' c'') : OthersKept m c c'' := by
  constructor
  · intro m' hm
    rw [h₂.trapRegs m' hm, h₁.trapRegs m' hm]
  · rw [h₂.mie, h₁.mie]
  · rw [h₂.others, h₁.others]

section

variable (c : Csrs) (m : Mode)

theorem othersKept_setCause (cause : Word) : OthersKept m c (c.setCause cause m) := by
  cases m
  all_goals
    refine ⟨fun m' hm => ?_, rfl, rfl⟩
    cases m' <;> first | rfl | exact absurd rfl hm

theorem othersKept_setTval (tval : Word) : OthersKept m c (c.setTval tval m) := by
  cases m
  all_goals
    refine ⟨fun m' hm => ?_, rfl, rfl⟩
    cases m' <;> first | rfl | exact absurd rfl hm

theorem othersKept_enter (pp : PrivilegeLevel) (pc : Word) :
    OthersKept m c (c.enter pp pc m) := by
  cases m
  all_goals
    refine ⟨fun m' hm => ?_, rfl, rfl⟩
    cases m' <;> first
      | exact absurd rfl hm
      | simp (disch := decide) [Csrs.trapRegs, Csrs.enter, BitField.get_put_of_apart]

theorem othersKept_leave : OthersKept m c (c.leave m) := by
  cases m
  all_goals
    refine ⟨fun m' hm => ?_, rfl, rfl⟩
    cases m' <;> first
      | exact absurd rfl hm
      | simp (disch := decide) [Csrs.trapRegs, Csrs.leave, BitField.get_put_of_apart]

/-- The entry saves the program counter, the level and the interrupt enable bit of the mode; one bit
is enough for a level up to supervisor mode. -/
theorem trapRegs_enter {m₀ : Mode} (hle : m₀.level ≤ m.level) (pc : Word) :
    (c.enter m₀.level pc m).trapRegs m = { c.trapRegs m with
      epc := pc, ie := 0, pie := (c.trapRegs m).ie, pp := m₀.level } := by
  cases m <;> cases m₀ <;> first
    | exact absurd hle (by decide)
    | simp (disch := decide) [Csrs.trapRegs, Csrs.enter, Mode.level, BitField.get_put,
        BitField.get_put_of_apart, machineMode, supervisorMode, userMode]

theorem ie_leave : ((c.leave m).trapRegs m).ie = (c.trapRegs m).pie := by
  cases m <;> simp (disch := decide) [Csrs.trapRegs, Csrs.leave, BitField.get_put,
    BitField.get_put_of_apart]

end

/-! ### One trap -/

/-- What a trap saves of the interrupted program. -/
structure Context where
  prv : PrivilegeLevel
  pc : Word
  ie : BitVec 1
  deriving DecidableEq, Repr

/-- The program that a trap to `m` interrupts, to go on at `pc`. -/
def Hart.context (h : Hart W) (m : Mode) (pc : Word) : Context :=
  ⟨h.prv, pc, (h.csrs.trapRegs m).ie⟩

/-- The registers in which `m` saves a program. -/
def Csrs.saved (c : Csrs) (m : Mode) : Context :=
  ⟨(c.trapRegs m).pp, (c.trapRegs m).epc, (c.trapRegs m).pie⟩

/-- The entry into a handler of `m`, to return to `pc`. -/
inductive Entry (env : Env W) (m : Mode) : Word → Hart W → Hart W → Prop
  | exception {e : SimulationTrap} {h h₁ h' : Hart W} (hprepare : prepareTrap e h = .ok m.level h₁)
      (hswitch : switchToTrapHandler env m.level h₁ = .ok () h') : Entry env m h.lastPc h h'
  | interrupt {i : PendingInterrupts} {h h₁ h' : Hart W}
      (hpending : computePendingInterrupts h = some i) (htarget : i.targetMode = m.level)
      (hprepare : prepareInterrupt i h = .ok () h₁)
      (hswitch : switchToTrapHandler env m.level h₁ = .ok () h') : Entry env m h.pc h h'

theorem level_injective {m m' : Mode} (h : m.level = m'.level) : m = m' := by
  revert h
  cases m <;> cases m' <;> decide

theorem saved_of_othersKept {m m' : Mode} {c c' : Csrs} (h : OthersKept m c c') (hm : m' ≠ m) :
    c'.saved m' = c.saved m' := by
  rw [Csrs.saved, Csrs.saved, h.trapRegs m' hm]

/-- The bus is unlocked between the record of the trap and the jump to the handler. -/
theorem Entry.eq_enter {env : Env W} {m : Mode} {pc : Word} {h h' : Hart W}
    (he : Entry env m pc h h') : ∃ c, OthersKept m h.csrs c ∧ c.mstatus = h.csrs.mstatus ∧
      c.misa = h.csrs.misa ∧ (∀ m₀ : Mode, h.prv = m₀.level → m₀.level ≤ m.level) ∧
      h' = (({ h with lrScCounter := 0, pc := pc, csrs := c } : Hart W).setWorld
        (env.atomicUnlock h.memView h.world).2).enter m := by
  have hswitched {h₁ : Hart W} (hview : h₁.memView = h.memView) (hworld : h₁.world = h.world)
      (hswitch : switchToTrapHandler env m.level h₁ = .ok () h') :
      h' = (({ h₁ with lrScCounter := 0 } : Hart W).setWorld
        (env.atomicUnlock h.memView h.world).2).enter m := by
    rw [switchToTrapHandler_eq] at hswitch
    cases hrelease : releaseLrScReservation env h₁ with
    | ok u h₂ =>
      rw [hrelease] at hswitch
      cases hswitch
      rw [releaseLrScReservation_ok hrelease, hview, hworld]
    | error e h₂ =>
      rw [hrelease] at hswitch
      cases hswitch
  cases he with
  | exception hprepare hswitch =>
    obtain ⟨m', cause, tval, hm, hle, rfl⟩ := prepareTrap_ok hprepare
    obtain rfl := level_injective hm
    refine ⟨(h.csrs.setCause cause m).setTval tval m, ?_, ?_, ?_, hle, ?_⟩
    · exact (othersKept_setCause _ _ _).trans (othersKept_setTval _ _ _)
    · cases m <;> rfl
    · cases m <;> rfl
    · exact hswitched (by cases m <;> rfl) (by cases m <;> rfl) hswitch
  | interrupt hpending htarget hprepare hswitch =>
    obtain ⟨cause, rfl⟩ := prepareInterrupt_ok htarget hprepare
    obtain ⟨m', hm, hle⟩ := computePendingInterrupts_mode hpending
    obtain rfl := level_injective (htarget.symm.trans hm)
    refine ⟨h.csrs.setCause cause m, othersKept_setCause _ _ _, ?_, ?_, ?_, ?_⟩
    · cases m <;> rfl
    · cases m <;> rfl
    · intro m₀ hm₀
      rwa [← hm₀]
    · exact hswitched (by cases m <;> rfl) (by cases m <;> rfl) hswitch

theorem Entry.prv {env : Env W} {m : Mode} {pc : Word} {h h' : Hart W}
    (he : Entry env m pc h h') : h'.prv = m.level := by
  obtain ⟨c, -, -, -, -, rfl⟩ := he.eq_enter
  rfl

theorem Entry.othersKept {env : Env W} {m : Mode} {pc : Word} {h h' : Hart W}
    (he : Entry env m pc h h') : OthersKept m h.csrs h'.csrs := by
  obtain ⟨c, hrecord, -, -, -, rfl⟩ := he.eq_enter
  have hunlock : OthersKept m c { c with mip := (env.atomicUnlock h.memView h.world).2.mip } := by
    constructor
    · intro m' hm
      cases m' <;> rfl
    · rfl
    · rfl
  exact (hrecord.trans hunlock).trans (othersKept_enter _ _ _ _)

theorem Entry.mip {env : Env W} {m : Mode} {pc : Word} {h h' : Hart W}
    (he : Entry env m pc h h') : h'.csrs.mip = (env.atomicUnlock h.memView h.world).2.mip := by
  obtain ⟨c, -, -, -, -, rfl⟩ := he.eq_enter
  cases m <;> rfl

/-- The entry saves the interrupted program. -/
theorem Entry.saved {env : Env W} {m m₀ : Mode} {pc : Word} {h h' : Hart W}
    (he : Entry env m pc h h') (hprv : h.prv = m₀.level) :
    h'.csrs.saved m = h.context m pc := by
  obtain ⟨c, -, hstatus, -, hle, rfl⟩ := he.eq_enter
  have hie : (c.trapRegs m).ie = (h.csrs.trapRegs m).ie := by
    cases m <;> simp only [Csrs.trapRegs, hstatus]
  show (Csrs.enter { c with mip := _ } h.prv pc m).saved m = _
  rw [Csrs.saved, hprv, trapRegs_enter _ _ (hle m₀ hprv), Hart.context, hprv, ← hie]
  cases m <;> rfl

/-- The handler of `catch` enters a handler for every trap it does not fail on. -/
theorem catchTrap_entry {env : Env W} {e : Raise} {h h' : Hart W}
    (hr : catchTrap env e h = .ok () h') : ∃ m, Entry env m h.lastPc h h' := by
  cases e with
  | trap x =>
    obtain ⟨target, h₁, hprepare, hswitch⟩ := bind_eq_ok.1 hr
    obtain ⟨m, -, -, rfl, -, -⟩ := prepareTrap_ok hprepare
    exact ⟨m, .exception hprepare hswitch⟩
  | _ => cases hr

/-- So do the lines that deliver an interrupt, if one is pending. -/
theorem deliverInterrupt_entry {env : Env W} {h h' : Hart W}
    (hr : deliverInterrupt env h = .ok () h') :
    (computePendingInterrupts h = none ∧ h' = h) ∨ ∃ m, Entry env m h.pc h h' := by
  rw [deliverInterrupt_eq] at hr
  cases hpending : computePendingInterrupts h with
  | none =>
    rw [hpending] at hr
    cases hr
    exact .inl ⟨rfl, rfl⟩
  | some i =>
    rw [hpending] at hr
    obtain ⟨_, h₁, hprepare, hswitch⟩ := bind_eq_ok.1 hr
    obtain ⟨m, htarget, -⟩ := computePendingInterrupts_mode hpending
    rw [htarget] at hswitch
    exact .inr ⟨m, .interrupt hpending htarget hprepare hswitch⟩

/-- A pending interrupt fails before its entry or in it. -/
theorem deliverInterrupt_error {env : Env W} {e : Raise} {h h' : Hart W}
    (hr : deliverInterrupt env h = .error e h') : ∃ (i : PendingInterrupts) (m : Mode),
      i.targetMode = m.level ∧ (prepareInterrupt i h = .error e h' ∨
        ∃ h₁, prepareInterrupt i h = .ok () h₁ ∧
          switchToTrapHandler env m.level h₁ = .error e h') := by
  rw [deliverInterrupt_eq] at hr
  cases hpending : computePendingInterrupts h with
  | none =>
    rw [hpending] at hr
    cases hr
  | some i =>
    rw [hpending] at hr
    obtain ⟨m, htarget, -⟩ := computePendingInterrupts_mode hpending
    refine ⟨i, m, htarget, ?_⟩
    rcases bind_eq_error.1 hr with hprepare | ⟨_, h₁, hprepare, hswitch⟩
    · exact .inl hprepare
    · rw [htarget] at hswitch
      exact .inr ⟨h₁, hprepare, hswitch⟩

/-! ### Runs of traps -/

/-- A hart under the handlers of `fs`, the innermost first, each with what it has interrupted. -/
inductive Nested (env : Env W) : List (Frame Mode Context) → Hart W → Prop
  /-- The program that runs outside of all handlers can leave any state behind. -/
  | program {h : Hart W} (m : Mode) (hprv : h.prv = m.level) : Nested env [] h
  /-- A trap to a mode above that of the running handler. -/
  | entry {fs : List (Frame Mode Context)} {m : Mode} {pc : Word} {h h' : Hart W}
      (hrun : Nested env fs h) (habove : ∀ f ∈ fs.head?, f.level < m)
      (hentry : Entry env m pc h h') : Nested env (⟨m, h.context m pc⟩ :: fs) h'
  /-- The handler goes on, and leaves alone what is saved for the open returns. -/
  | handler {f : Frame Mode Context} {fs : List (Frame Mode Context)} {h h' : Hart W}
      (hrun : Nested env (f :: fs) h) (hprv : h'.prv = h.prv)
      (hsaved : ∀ g ∈ f :: fs, h'.csrs.saved g.level = h.csrs.saved g.level) :
      Nested env (f :: fs) h'
  /-- The handler returns. -/
  | ret {f : Frame Mode Context} {fs : List (Frame Mode Context)} {h h' : Hart W}
      (hrun : Nested env (f :: fs) h)
      (hreturn : returnFromTrapHandler f.level.level h = .ok () h') : Nested env fs h'

/-- At level `prv`, under the handlers of `fs`, each return leads to the mode of the next. -/
def Resumes : List (Frame Mode Context) → PrivilegeLevel → Prop
  | [], prv => ∃ m : Mode, prv = m.level
  | f :: fs, prv => prv = f.level.level ∧ Resumes fs f.value.prv

theorem Resumes.mode {fs : List (Frame Mode Context)} {prv : PrivilegeLevel}
    (h : Resumes fs prv) : ∃ m : Mode, prv = m.level := by
  cases fs with
  | nil => exact h
  | cons f fs => exact ⟨f.level, h.1⟩

/-- What the registers hold for the open returns. -/
structure Suspends (fs : List (Frame Mode Context)) (h : Hart W) : Prop where
  holds : Holds h.csrs.saved fs
  resumes : Resumes fs h.prv

section

variable {env : Env W} {f : Frame Mode Context} {fs : List (Frame Mode Context)} {h h' : Hart W}

theorem Suspends.entry {m : Mode} {pc : Word} (hs : Suspends fs h)
    (habove : ∀ f ∈ fs.head?, f.level < m) (he : Entry env m pc h h') :
    Suspends (⟨m, h.context m pc⟩ :: fs) h' := by
  obtain ⟨m₀, hm₀⟩ := hs.resumes.mode
  constructor
  · exact hs.holds.push habove (he.saved hm₀) fun m' hm' => saved_of_othersKept he.othersKept hm'
  · exact ⟨he.prv, hs.resumes⟩

theorem Suspends.handler (hs : Suspends fs h) (hprv : h'.prv = h.prv)
    (hsaved : ∀ g ∈ fs, h'.csrs.saved g.level = h.csrs.saved g.level) : Suspends fs h' := by
  constructor
  · exact hs.holds.keep hsaved
  · rw [hprv]
    exact hs.resumes

/-- The registers of the innermost handler hold what it has interrupted. -/
theorem Suspends.saved (hs : Suspends (f :: fs) h) : h.csrs.saved f.level = f.value :=
  hs.holds.saved f List.mem_cons_self

theorem Suspends.ret (hs : Suspends (f :: fs) h) : Suspends fs (h.leave f.level) := by
  have hlevel : (h.leave f.level).prv = f.value.prv := by
    rw [← hs.saved]
    cases f.level <;> rfl
  constructor
  · exact hs.holds.pop fun m' hm' => saved_of_othersKept (othersKept_leave _ _) hm'
  · rw [hlevel]
    exact hs.resumes.2

theorem Nested.suspends (hrun : Nested env fs h) : Suspends fs h := by
  induction hrun with
  | program m hprv => exact ⟨Holds.nil _, m, hprv⟩
  | entry _ habove hentry ih => exact ih.entry habove hentry
  | handler _ hprv hsaved ih => exact ih.handler hprv hsaved
  | ret _ hreturn ih =>
    rw [returnFromTrapHandler_eq] at hreturn
    cases hreturn
    exact ih.ret

/-! ### Main result -/

/-- However deep the traps of a run nest, an entry into a handler and the return from it write no trap
register of another mode, and the return restores the level, the program counter and the interrupt
enable bit of the program that its own trap has interrupted. -/
theorem Nested.unwinds (hrun : Nested env fs h) :
    (∀ m pc h', Entry env m pc h h' → OthersKept m h.csrs h'.csrs ∧
      h'.csrs.mip = (env.atomicUnlock h.memView h.world).2.mip) ∧
    ∀ f rest, fs = f :: rest → ∃ h', returnFromTrapHandler f.level.level h = .ok () h' ∧
      h'.prv = f.value.prv ∧ h'.pc = f.value.pc ∧ (h'.csrs.trapRegs f.level).ie = f.value.ie ∧
      OthersKept f.level h.csrs h'.csrs ∧ h'.csrs.mip = h.csrs.mip := by
  constructor
  · intro m pc h' he
    exact ⟨he.othersKept, he.mip⟩
  · rintro f rest rfl
    refine ⟨_, returnFromTrapHandler_eq _ _, ?_, ?_, ?_, othersKept_leave _ _, ?_⟩
    all_goals try rw [← hrun.suspends.saved]
    · cases f.level <;> rfl
    · cases f.level <;> rfl
    · exact ie_leave _ _
    · cases f.level <;> rfl

end

/-- A user program that raises an exception for supervisor mode, with a machine-mode interrupt
pending. -/
def userTrap : Hart BareMemory :=
  let h := Hart.reset userMode 0x00140100 0 fun _ => 0
  { h with
    pc := 0x404
    lastPc := 0x400
    csrs := { h.csrs with
      mstatus := 0x1
      medeleg := 0x4
      mtvec := 0x1000
      stvec := 0x2000
      mie := 0x8
      mip := 0x8 } }

/-- The interrupt of the supervisor's handler. -/
def handlerInterrupted : Hart BareMemory :=
  final (deliverInterrupt Env.bare (final (catchTrap Env.bare (.trap ⟨excIllegalInstr, 0⟩) userTrap)))

theorem unwinds_handlerInterrupted :
    ∃ h', returnFromTrapHandler machineMode handlerInterrupted = .ok () h' ∧
      h'.prv = supervisorMode ∧ h'.pc = 0x2000 := by
  have hprepare : prepareTrap ⟨excIllegalInstr, 0⟩ userTrap = .ok Mode.supervisor.level _ := rfl
  have hpending : computePendingInterrupts (final (catchTrap Env.bare
      (.trap ⟨excIllegalInstr, 0⟩) userTrap)) = some ⟨machineMode, 0x8⟩ := rfl
  have htrap : Nested Env.bare _ (final (catchTrap Env.bare (.trap ⟨excIllegalInstr, 0⟩) userTrap)) :=
    .entry (.program .user rfl) (fun _ hf => by cases hf) (.exception hprepare rfl)
  have hinterrupt : Nested Env.bare _ handlerInterrupted := .entry (m := .machine) htrap (by decide)
    (.interrupt hpending rfl rfl rfl)
  obtain ⟨h', hreturn, hprv, hpc, -⟩ := hinterrupt.unwinds.2 _ _ rfl
  exact ⟨h', hreturn, hprv, hpc⟩

end Vcil.Iss
