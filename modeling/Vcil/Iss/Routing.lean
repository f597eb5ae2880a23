import Vcil.Iss.BareMetal
import Vcil.Iss.Modes

/-!
# Where traps go

The privileged architecture says which mode handles an interrupt or an exception, in terms of the
bits of single interrupts; the simulator masks whole registers and returns early.

* `Interrupt`, `Interrupt.target`, `Takeable`: the nine interrupts, the modes they are delegated to,
  and when one can be taken;
* `Chosen`: the one that has to be delivered;
* `exceptionTarget`: the mode that has to handle an exception;
* `TrapsRouted`, `trapsRouted`: the simulator does both.
-/

namespace Vcil.Iss

/-! ### The rules -/

/-- The standard interrupts, by falling priority. -/
inductive Interrupt
  | mei | msi | mti | sei | ssi | sti | uei | usi | uti
  deriving DecidableEq, Repr

namespace Interrupt

def all : List Interrupt := [mei, msi, mti, sei, ssi, sti, uei, usi, uti]

/-- The cause, and the bit of the interrupt in `mie`, `mip` and the delegation registers. -/
def code : Interrupt → ExceptionCode
  | mei => 11 | msi => 3 | mti => 7
  | sei => 9 | ssi => 1 | sti => 5
  | uei => 8 | usi => 0 | uti => 4

/-- The place in the order of priorities. -/
def rank : Interrupt → ℕ
  | mei => 0 | msi => 1 | mti => 2
  | sei => 3 | ssi => 4 | sti => 5
  | uei => 6 | usi => 7 | uti => 8

/-- The bit of the interrupt. -/
def isSet (i : Interrupt) (x : Word) : Bool := x.getLsbD i.code.toNat

/-- The mode that the delegation registers send the interrupt to. -/
def target (c : Csrs) (i : Interrupt) : Mode :=
  if !i.isSet c.mideleg then .machine
  else if !i.isSet c.sideleg then .supervisor
  else .user

/-- Enabled and pending. -/
def Pending (c : Csrs) (i : Interrupt) : Prop := i.isSet c.mie = true ∧ i.isSet c.mip = true

end Interrupt

/-- The interrupt-enable bit of a mode. -/
def Csrs.xie (c : Csrs) : Mode → Bool
  | .machine => Mstatus.mie.isSet c.mstatus
  | .supervisor => Mstatus.sie.isSet c.mstatus
  | .user => Mstatus.uie.isSet c.mstatus

/-- `MIE_MASK`, the standard interrupts. -/
def mieMask : Word := 0b101110111011

section

variable {W : Type} (h : Hart W)

/-- The hart takes interrupts that go to a mode. -/
def Hart.Open (m : Mode) : Prop := h.prv < m.level ∨ h.prv = m.level ∧ h.csrs.xie m = true

instance (m : Mode) : Decidable (h.Open m) := by
  unfold Hart.Open
  infer_instance

def Takeable (i : Interrupt) : Prop := i.Pending h.csrs ∧ h.Open (i.target h.csrs)

/-- The takeable interrupt with the most privileged target, among those the first by priority. -/
structure Chosen (m : Mode) (i : Interrupt) : Prop where
  takeable : Takeable h i
  target : i.target h.csrs = m
  privileged : ∀ j, Takeable h j → (j.target h.csrs).level ≤ m.level
  first : ∀ j, Takeable h j → j.target h.csrs = m → i.rank ≤ j.rank

/-- An exception goes to machine mode, or along the delegation registers, but to no mode below. -/
def exceptionTarget (reason : ExceptionCode) : Mode :=
  if h.prv < machineMode ∧ h.csrs.medeleg.getLsbD reason.toNat = true then
    if h.prv = userMode ∧ h.csrs.sedeleg.getLsbD reason.toNat = true then .user else .supervisor
  else .machine

/-- The cause register of a mode. -/
def Csrs.cause (c : Csrs) : Mode → Word
  | .machine => c.mcause
  | .supervisor => c.scause
  | .user => c.ucause

/-- The cause register of `m` shows `code`, and the hart is otherwise the same. -/
def Records (interrupt : BitVec 1) (code : ExceptionCode) (m : Mode) (h' : Hart W) : Prop :=
  ∃ cause, h' = { h with csrs := h.csrs.setCause cause m } ∧
    Cause.interrupt.get cause = interrupt ∧ Cause.exceptionCode.get cause = code.setWidth 31

/-- What the simulator does with the interrupts and with an exception. -/
structure TrapsRouted : Prop where
  idle : computePendingInterrupts h = none ↔ ¬∃ i, Takeable h i
  interrupt : ∀ e, computePendingInterrupts h = some e → ∃ m i, Chosen h m i ∧
    e.targetMode = m.level ∧ h.prv ≤ m.level ∧
    ∃ h', prepareInterrupt e h = .ok () h' ∧ Records h 1 i.code m h'
  /-- A value that does not fit in 32 bits is refused after the routing. -/
  exception : ∀ e m, m = exceptionTarget h e.reason → h.prv ≤ m.level ∧
    ∃ h', Records { h with pc := h.lastPc } 0 e.reason m h' ∧
      prepareTrap e h =
        if e.mtval.toNat < 2 ^ 32 then
          .ok m.level { h' with csrs := h'.csrs.setTval (e.mtval.setWidth 32) m }
        else .error .badLexicalCast h'

end

/-! ### Masks and single interrupts -/

namespace Interrupt

theorem mem_all (i : Interrupt) : i ∈ all := by cases i <;> decide

theorem pairwise_all : all.Pairwise fun i j => i.rank < j.rank := by decide

/-- The enabled pending interrupts of a mode, as the simulator computes them. -/
def maskOf (c : Csrs) : Mode → Word
  | .machine => c.mie &&& c.mip &&& ~~~c.mideleg
  | .supervisor => c.mie &&& c.mip &&& c.mideleg &&& ~~~c.sideleg
  | .user => c.mie &&& c.mip &&& c.mideleg &&& c.sideleg

theorem isSet_maskOf (c : Csrs) (m : Mode) (i : Interrupt) :
    i.isSet (maskOf c m) = true ↔ i.Pending c ∧ i.target c = m := by
  have hlt : i.code.toNat < 32 := i.code.isLt
  unfold Pending target isSet
  cases m
  all_goals
    simp only [maskOf, BitVec.getLsbD_and, BitVec.getLsbD_not, hlt, decide_true, Bool.true_and]
    cases c.mie.getLsbD i.code.toNat <;> cases c.mip.getLsbD i.code.toNat <;>
      cases c.mideleg.getLsbD i.code.toNat <;> cases c.sideleg.getLsbD i.code.toNat <;> decide

/-- Only the standard interrupts have a bit. -/
theorem exists_isSet {x : Word} (hx : x &&& ~~~mieMask = 0) (hne : x ≠ 0) :
    ∃ i : Interrupt, i.isSet x = true := by
  have hmask : ∀ j < 32, mieMask.getLsbD j = true → ∃ i ∈ all, i.code.toNat = j := by decide
  by_contra hnone
  push Not at hnone
  refine hne (BitVec.eq_of_getLsbD_eq fun j hj => ?_)
  have hout : (x &&& ~~~mieMask).getLsbD j = false := by
    rw [hx]
    exact BitVec.getLsbD_zero
  rw [BitVec.getLsbD_and, BitVec.getLsbD_not] at hout
  show x.getLsbD j = (0#32).getLsbD j
  rw [BitVec.getLsbD_zero]
  by_cases hstandard : mieMask.getLsbD j = true
  · obtain ⟨i, -, rfl⟩ := hmask j hj hstandard
    simpa [isSet] using hnone i
  · rw [Bool.not_eq_true] at hstandard
    rw [hstandard] at hout
    simpa only [hj, decide_true, Bool.not_false, Bool.and_true] using hout

variable {c : Csrs} (hmie : c.mie &&& ~~~mieMask = 0)

include hmie in
theorem maskOf_ne_zero (m : Mode) :
    maskOf c m ≠ 0 ↔ ∃ i : Interrupt, i.Pending c ∧ i.target c = m := by
  constructor
  · intro hne
    have hstandard : maskOf c m &&& ~~~mieMask = 0 := by
      have hmie' (x : Word) : c.mie &&& x &&& ~~~mieMask = 0 := by
        rw [BitVec.and_assoc, BitVec.and_comm x, ← BitVec.and_assoc, hmie]
        exact BitVec.zero_and
      have hsplit : ∃ x, maskOf c m = c.mie &&& x := by
        cases m <;> simp only [maskOf, BitVec.and_assoc, exists_apply_eq_apply']
      obtain ⟨x, hx⟩ := hsplit
      rw [hx, hmie']
    obtain ⟨i, hi⟩ := exists_isSet hstandard hne
    exact ⟨i, (isSet_maskOf c m i).1 hi⟩
  · rintro ⟨i, hi⟩ hzero
    have hset := (isSet_maskOf c m i).2 hi
    rw [hzero] at hset
    simp [isSet] at hset

end Interrupt

/-! ### Interrupts -/

section

variable {W : Type} {h : Hart W}

open Interrupt

/-- The early returns go through the modes from the most privileged on. -/
theorem computePendingInterrupts_eq (h : Hart W) : computePendingInterrupts h =
    if maskOf h.csrs .machine ≠ 0 ∧ h.Open .machine then
      some ⟨machineMode, maskOf h.csrs .machine⟩
    else if maskOf h.csrs .supervisor ≠ 0 ∧ h.Open .supervisor then
      some ⟨supervisorMode, maskOf h.csrs .supervisor⟩
    else if maskOf h.csrs .user ≠ 0 ∧ h.Open .user then some ⟨userMode, maskOf h.csrs .user⟩
    else none := by
  have huser : h.Open .user ↔ h.prv = userMode ∧ Mstatus.uie.isSet h.csrs.mstatus = true :=
    or_iff_right BitVec.not_lt_zero
  by_cases hnone : h.csrs.mie &&& h.csrs.mip = 0
  · have hmask (m : Mode) : maskOf h.csrs m = 0 := by
      cases m <;> simp only [maskOf, hnone] <;> simp
    simp [computePendingInterrupts, hnone, hmask]
  · simp only [computePendingInterrupts, if_neg hnone, huser]
    rfl

theorem firstInterrupt_eq (x : Word) :
    firstInterrupt x = (all.find? fun i => i.isSet x).map Interrupt.code := by
  have horder : interruptOrder = all.map fun i => (⟨i.code.toNat, 1⟩, i.code) := rfl
  rw [firstInterrupt, horder, List.find?_map, Option.map_map]
  rfl

/-- The interrupt that `prepare_interrupt` takes is the first one of the mask. -/
theorem firstInterrupt_spec {x : Word} (hx : ∃ i : Interrupt, i.isSet x = true) :
    ∃ i : Interrupt, firstInterrupt x = some i.code ∧ i.isSet x = true ∧
      ∀ j : Interrupt, j.isSet x = true → i.rank ≤ j.rank := by
  cases hfind : all.find? fun i => i.isSet x with
  | none =>
    obtain ⟨i, hi⟩ := hx
    exact absurd hi (List.find?_eq_none.1 hfind i (mem_all i))
  | some i =>
    obtain ⟨hi, before, after, hall, hbefore⟩ := List.find?_eq_some_iff_append.1 hfind
    refine ⟨i, by rw [firstInterrupt_eq, hfind]; rfl, hi, fun j hj => ?_⟩
    have hmem := mem_all j
    have hsorted := pairwise_all
    rw [hall] at hmem hsorted
    rw [List.mem_append, List.mem_cons] at hmem
    rcases hmem with hin | rfl | hin
    · have hno := hbefore j hin
      rw [hj] at hno
      cases hno
    · exact le_rfl
    · have hrest := (List.pairwise_append.1 hsorted).2.1
      exact le_of_lt ((List.pairwise_cons.1 hrest).1 j hin)

theorem get_causeOf (interrupt : BitVec 1) (exc : ExceptionCode) (cause : Word) :
    Cause.interrupt.get (causeOf interrupt exc cause) = interrupt ∧
      Cause.exceptionCode.get (causeOf interrupt exc cause) = exc.setWidth 31 := by
  constructor
  · rw [causeOf, BitField.get_put_of_apart _ (by decide) (by decide), BitField.get_put _ (by decide)]
  · rw [causeOf, BitField.get_put _ (by decide)]

theorem prepareInterrupt_eq {e : PendingInterrupts} {m : Mode} {exc : ExceptionCode}
    (hm : e.targetMode = m.level) (hexc : firstInterrupt e.pending = some exc) (h : Hart W) :
    prepareInterrupt e h =
      .ok () { h with csrs := h.csrs.setCause (causeOf 1 exc (h.csrs.cause m)) m } := by
  simp only [prepareInterrupt, hexc, hm]
  cases m <;> rfl

variable (hmie : h.csrs.mie &&& ~~~mieMask = 0)

include hmie

/-- A mode has a takeable interrupt if its mask is not empty and the mode is open. -/
theorem exists_takeable_iff (m : Mode) :
    maskOf h.csrs m ≠ 0 ∧ h.Open m ↔ ∃ i, Takeable h i ∧ i.target h.csrs = m := by
  rw [maskOf_ne_zero hmie]
  constructor
  · rintro ⟨⟨i, hpending, rfl⟩, hopen⟩
    exact ⟨i, ⟨hpending, hopen⟩, rfl⟩
  · rintro ⟨i, ⟨hpending, hopen⟩, rfl⟩
    exact ⟨⟨i, hpending, rfl⟩, hopen⟩

theorem computePendingInterrupts_none :
    computePendingInterrupts h = none ↔ ¬∃ i, Takeable h i := by
  rw [computePendingInterrupts_eq]
  constructor
  · intro hnone
    split_ifs at hnone with hm hs hu
    rintro ⟨i, hi⟩
    have hmask := (exists_takeable_iff hmie _).2 ⟨i, hi, rfl⟩
    cases htarget : i.target h.csrs <;> rw [htarget] at hmask
    · exact hu hmask
    · exact hs hmask
    · exact hm hmask
  · intro hno
    have hnone (m : Mode) : ¬(maskOf h.csrs m ≠ 0 ∧ h.Open m) := by
      rw [exists_takeable_iff hmie]
      exact fun ⟨i, hi, _⟩ => hno ⟨i, hi⟩
    rw [if_neg (hnone _), if_neg (hnone _), if_neg (hnone _)]

/-- The mode that is chosen is the most privileged one with a takeable interrupt. -/
theorem computePendingInterrupts_some {e : PendingInterrupts}
    (he : computePendingInterrupts h = some e) :
    ∃ m : Mode, e = ⟨m.level, maskOf h.csrs m⟩ ∧ (maskOf h.csrs m ≠ 0 ∧ h.Open m) ∧
      ∀ j, Takeable h j → (j.target h.csrs).level ≤ m.level := by
  rw [computePendingInterrupts_eq] at he
  split_ifs at he with hm hs hu <;> cases he
  · exact ⟨.machine, rfl, hm, fun j _ => le_machineMode _⟩
  · refine ⟨.supervisor, rfl, hs, fun j hj => ?_⟩
    cases htarget : j.target h.csrs with
    | machine => exact absurd ((exists_takeable_iff hmie .machine).2 ⟨j, hj, htarget⟩) hm
    | supervisor => exact BitVec.le_refl _
    | user => decide
  · refine ⟨.user, rfl, hu, fun j hj => ?_⟩
    cases htarget : j.target h.csrs with
    | machine => exact absurd ((exists_takeable_iff hmie .machine).2 ⟨j, hj, htarget⟩) hm
    | supervisor => exact absurd ((exists_takeable_iff hmie .supervisor).2 ⟨j, hj, htarget⟩) hs
    | user => exact BitVec.le_refl _

theorem interrupt_routed {e : PendingInterrupts} (he : computePendingInterrupts h = some e) :
    ∃ m i, Chosen h m i ∧ e.targetMode = m.level ∧ h.prv ≤ m.level ∧
      ∃ h', prepareInterrupt e h = .ok () h' ∧ Records h 1 i.code m h' := by
  obtain ⟨m, rfl, hmask, hmost⟩ := computePendingInterrupts_some hmie he
  obtain ⟨i₀, hi₀, htarget₀⟩ := (exists_takeable_iff hmie m).1 hmask
  have hset₀ := (isSet_maskOf h.csrs m i₀).2 ⟨hi₀.1, htarget₀⟩
  obtain ⟨i, hfirst, hset, hleast⟩ := firstInterrupt_spec ⟨i₀, hset₀⟩
  obtain ⟨hpending, htarget⟩ := (isSet_maskOf h.csrs m i).1 hset
  have hchosen : Chosen h m i := by
    refine ⟨⟨hpending, htarget ▸ hmask.2⟩, htarget, hmost, fun j hj hsame => ?_⟩
    exact hleast j ((isSet_maskOf h.csrs m j).2 ⟨hj.1, hsame⟩)
  have hlevel : h.prv ≤ m.level := by
    rcases hmask.2 with hlt | ⟨heq, -⟩
    · exact BitVec.le_of_lt hlt
    · exact BitVec.le_of_eq heq
  have hprepare := prepareInterrupt_eq (e := ⟨m.level, maskOf h.csrs m⟩) rfl hfirst h
  exact ⟨m, i, hchosen, rfl, hlevel, _, hprepare, _, rfl, get_causeOf _ _ _⟩

end

/-! ### Exceptions -/

section

variable {W : Type}

theorem one_shiftLeft_and {n : ℕ} (hn : n < 32) (x : Word) :
    ((1 <<< n : ℕ) : Word) &&& x = 0 ↔ ¬x.getLsbD n = true := by
  have hpow : ((1 <<< n : ℕ) : Word) = BitVec.twoPow 32 n := by
    apply BitVec.eq_of_toNat_eq
    rw [BitVec.toNat_twoPow, Nat.one_shiftLeft]
    rfl
  have hne : BitVec.twoPow 32 n ≠ 0#32 := by
    intro hzero
    have hset : (BitVec.twoPow 32 n).getLsbD n = _ := BitVec.getLsbD_twoPow n n
    rw [hzero] at hset
    simp [hn] at hset
  rw [hpow, BitVec.and_comm, BitVec.and_twoPow]
  split_ifs with hx
  · exact iff_of_false hne (not_not.2 hx)
  · exact iff_of_true rfl hx

theorem recordTrap_eq (f : Csrs → Csrs) (g : Word → Csrs → Csrs) (mtval : BitVec 64)
    (x : PrivilegeLevel) (h : Hart W) :
    (do
      setCsrs f
      let tval ← lexicalCast mtval
      setCsrs (g tval)
      return x : M W PrivilegeLevel) h =
      if mtval.toNat < 2 ^ 32 then
        .ok x { h with csrs := g (mtval.setWidth 32) (f h.csrs) }
      else .error .badLexicalCast { h with csrs := f h.csrs } := by
  unfold lexicalCast
  split_ifs <;> rfl

/-- The exception is recorded with its cause, and with its value if that fits. -/
theorem prepareTrap_eq {h : Hart W} {m₀ m : Mode} (hprv : h.prv = m₀.level) (e : SimulationTrap)
    (hm : m = exceptionTarget h e.reason) :
    let cause := causeOf 0 e.reason (h.csrs.cause m)
    let h' := { h with pc := h.lastPc, csrs := h.csrs.setCause cause m }
    prepareTrap e h =
      if e.mtval.toNat < 2 ^ 32 then
        .ok m.level { h' with csrs := h'.csrs.setTval (e.mtval.setWidth 32) m }
      else .error .badLexicalCast h' := by
  intro cause h'
  have hbit (x : Word) : ((1 <<< e.reason.toNat : ℕ) : Word) &&& x = 0 ↔
      ¬x.getLsbD e.reason.toNat = true := one_shiftLeft_and e.reason.isLt x
  change (if _ then _ else _ : M W PrivilegeLevel) { h with pc := h.lastPc } = _
  by_cases hmachine : h.prv = machineMode ∨ ¬h.csrs.medeleg.getLsbD e.reason.toNat = true
  · obtain rfl : m = .machine := by
      refine hm.trans (if_neg fun hdeleg => ?_)
      rcases hmachine with hlevel | hbit
      · rw [hlevel] at hdeleg
        exact BitVec.lt_irrefl _ hdeleg.1
      · exact hbit hdeleg.2
    rw [if_pos (hmachine.imp_right (hbit _).2)]
    exact recordTrap_eq _ _ _ _ _
  rw [if_neg (mt (Or.imp_right (hbit _).1) hmachine)]
  obtain ⟨hlower, hmedeleg⟩ := not_or.1 hmachine
  rw [not_not] at hmedeleg
  have hbelow : h.prv < machineMode ∧ h.csrs.medeleg.getLsbD e.reason.toNat = true :=
    ⟨BitVec.lt_of_le_ne (le_machineMode _) hlower, hmedeleg⟩
  by_cases hsupervisor : h.prv = supervisorMode ∨ ¬h.csrs.sedeleg.getLsbD e.reason.toNat = true
  · obtain rfl : m = .supervisor := by
      refine hm.trans ((if_pos hbelow).trans (if_neg fun hdeleg => ?_))
      rcases hsupervisor with hlevel | hbit
      · rw [hlevel] at hdeleg
        exact absurd hdeleg.1 (by decide)
      · exact hbit hdeleg.2
    rw [if_pos (hsupervisor.imp_right (hbit _).2)]
    exact recordTrap_eq _ _ _ _ _
  rw [if_neg (mt (Or.imp_right (hbit _).1) hsupervisor)]
  obtain ⟨hnot, hsedeleg⟩ := not_or.1 hsupervisor
  rw [not_not] at hsedeleg
  have huser : h.prv = userMode := by
    cases m₀ with
    | machine => exact absurd hprv hlower
    | supervisor => exact absurd hprv hnot
    | user => exact hprv
  obtain rfl : m = .user := hm.trans ((if_pos hbelow).trans (if_pos ⟨huser, hsedeleg⟩))
  have hassert : assert (fun h => h.prv = userMode &&
      ((1 <<< e.reason.toNat : ℕ) : Word) &&& h.csrs.medeleg != 0 &&
      ((1 <<< e.reason.toNat : ℕ) : Word) &&& h.csrs.sedeleg != 0) { h with pc := h.lastPc } =
      .ok () { h with pc := h.lastPc } := by
    have hne (x : Word) (hx : x.getLsbD e.reason.toNat = true) :
        (((1 <<< e.reason.toNat : ℕ) : Word) &&& x != 0) = true :=
      bne_iff_ne.2 fun hzero => (hbit x).1 hzero hx
    rw [assert_eq, if_pos]
    simp only [huser, hne _ hmedeleg, hne _ hsedeleg, decide_true, Bool.and_self]
  rw [Fallible.bind_of_ok hassert]
  exact recordTrap_eq _ _ _ _ _

/-- No exception goes to a mode below the current one. -/
theorem le_exceptionTarget {h : Hart W} {m₀ : Mode} (hprv : h.prv = m₀.level)
    (reason : ExceptionCode) : h.prv ≤ (exceptionTarget h reason).level := by
  unfold exceptionTarget
  split_ifs with hm hu
  · exact BitVec.le_of_eq hu.1
  · rw [hprv] at hm ⊢
    cases m₀ with
    | machine => exact absurd hm.1 (by decide)
    | supervisor => decide
    | user => decide
  · exact le_machineMode _

end

/-! ### Main result -/

/-- In every mode, interrupts and exceptions go where the architecture sends them. -/
theorem trapsRouted {W : Type} (h : Hart W) (m₀ : Mode) (hprv : h.prv = m₀.level)
    (hmie : h.csrs.mie &&& ~~~mieMask = 0) : TrapsRouted h where
  idle := computePendingInterrupts_none hmie
  interrupt _ he := interrupt_routed hmie he
  exception e m hm := by
    subst hm
    exact ⟨le_exceptionTarget hprv e.reason, _, ⟨_, rfl, get_causeOf _ _ _⟩, prepareTrap_eq hprv e rfl⟩

/-- A hart in user mode with three interrupts pending, two of them delegated to supervisor mode. -/
def userPending : Hart BareMemory :=
  { Hart.reset userMode 0x00140100 0 fun _ => 0 with
    csrs := { Csrs.reset 0x00140100 0 with
      mie := 0xBBB
      mip := 0x2A0
      mideleg := 0x222 } }

theorem userPending_routed : TrapsRouted userPending := trapsRouted userPending .user rfl (by decide)

end Vcil.Iss
