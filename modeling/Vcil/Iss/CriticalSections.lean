import Mathlib.Data.List.Perm.Subperm
import Vcil.Iss.Isolation
import Vcil.Iss.Levels
import Vcil.Iss.Routing

/-!
# Critical sections

Software that must not be interrupted clears the interrupt enable bit of its mode.  The bit then
stays clear, whatever the handlers of the modes above do, until an instruction sets it again or
returns from a trap; and as long as the hart does not go below the mode, no interrupt is handled in
it.

* `Unmasks`: the instructions that write the bit, or return from a handler of the mode;
* `DeliversTo`, `InterruptedRun`: a run, with the modes to which it delivers interrupts;
* `masked_inside`: the bit stays clear, and inside the mode these are all above;
* `interrupts_ascend`: where nothing sets a bit, handlers are only interrupted by handlers of modes
  above them.
-/

namespace Vcil.Iss

open Fallible

variable {W : Type}

/-! ### Interrupt enable bits -/

namespace Mode

/-- The place of the interrupt enable bit in `mstatus`. -/
def enableBit : Mode → ℕ
  | machine => Mstatus.mie.lo
  | supervisor => Mstatus.sie.lo
  | user => Mstatus.uie.lo

/-- The instruction that returns from a handler of the mode. -/
def returnOp : Mode → Opcode
  | machine => .mret
  | supervisor => .sret
  | user => .uret

end Mode

/-- What a CSR instruction writes through a view of `mstatus`. -/
def statusResult (env : Env W) (h : Hart W) (i : Instruction) (op : Opcode) : Word :=
  csrResult (h.csrs.mstatus &&& statusMask env i.csr) (csrOperand i h op) op

/-- The instruction sets the interrupt enable bit of `m`, which is clear: the value that it writes
has the bit, and the view of `mstatus` covers it. -/
def SetsEnable (env : Env W) (m : Mode) (h : Hart W) (i : Instruction) (op : Opcode) : Prop :=
  h.csrs.xie m = false ∧ WritesCsr i op ∧ NamesStatus env i.csr ∧
    invalidCsrAccess h i.csr true = false ∧
    (statusMask env i.csr).getLsbD m.enableBit = true ∧
    (statusResult env h i op).getLsbD m.enableBit = true

/-- The instruction may set the interrupt enable bit of `m`: it returns from a handler of `m`, or
writes the bit. -/
def Unmasks (env : Env W) (m : Mode) (h : Hart W) (i : Instruction) (op : Opcode) : Prop :=
  op = m.returnOp ∨ SetsEnable env m h i op

instance (env : Env W) (m : Mode) (h : Hart W) (i : Instruction) (op : Opcode) :
    Decidable (Unmasks env m h i op) :=
  inferInstanceAs (Decidable (_ ∨ _ ∧ _ ∧ _ ∧ _ ∧ _ ∧ _))

/-- The instruction of the step does not. -/
def LeavesMasked (env : Env W) (m : Mode) (t : TimedHart W) : Prop :=
  ∀ h, fetch env (startInstr t.hart) = .ok () h → ¬Unmasks env m h h.instr h.op

/-- If the bit of `m` is clear, it stays so. -/
def StaysMasked (m : Mode) (h h' : Hart W) : Prop := h.csrs.xie m = false → h'.csrs.xie m = false

section Bits

variable {c c' : Csrs} {m n : Mode}

theorem xie_eq (c : Csrs) (m : Mode) : c.xie m = c.mstatus.getLsbD m.enableBit := by
  cases m <;> rfl

theorem xie_congr (h : c'.mstatus = c.mstatus) (m : Mode) : c'.xie m = c.xie m := by
  rw [xie_eq, xie_eq, h]

/-- The entry clears the bit of its mode. -/
theorem xie_enter (c : Csrs) (pp : PrivilegeLevel) (pc : Word) (n m : Mode) :
    (c.enter pp pc n).xie m = if m = n then false else c.xie m := by
  cases n <;> cases m <;>
    simp (disch := decide) only [Csrs.enter, Csrs.xie, BitField.isSet, BitField.getLsbD_put] <;> rfl

theorem xie_leave (c : Csrs) (hne : m ≠ n) : (c.leave n).xie m = c.xie m := by
  cases n <;> cases m <;> first
    | exact absurd rfl hne
    | (simp (disch := decide) only [Csrs.leave, Csrs.xie, BitField.isSet, BitField.getLsbD_put]
       rfl)

theorem KeptHart.xie {h h' : Hart W} (hkept : KeptHart .user h h') (m : Mode) :
    h'.csrs.xie m = h.csrs.xie m := by
  have hstack := hkept.stack m (BitVec.not_lt.1 BitVec.not_lt_zero) (by simp)
  have hbit := congrArg (·.getLsbD m.enableBit) hstack
  have hmask : m.stackBits.getLsbD m.enableBit = true := by cases m <;> rfl
  simpa only [xie_eq, BitVec.getLsbD_and, hmask, Bool.and_true] using hbit

end Bits

/-! ### Instructions -/

section Exec

variable {env : Env W} {b : Build} {m : Mode} {i : Instruction} {op : Opcode} {t : TimedHart W}

/-- A return leaves the handler of its mode, or is an illegal instruction. -/
theorem exec_return_leaves (env : Env W) (b : Build) (i : Instruction) (t : TimedHart W)
    (hop : IsReturn op) : ∃ n : Mode, op = n.returnOp ∧
    ((final (exec env b i op t)).hart = t.hart.leave n ∨
      (final (exec env b i op t)).hart = t.hart) := by
  rw [exec_return env b i hop, final_lift]
  rcases hop with rfl | rfl | rfl
  · refine ⟨.user, rfl, ?_⟩
    show final (uret t.hart) = _ ∨ final (uret t.hart) = _
    unfold uret
    rw [illegalIf_bind]
    split_ifs
    · exact .inr rfl
    · exact .inl (congrArg final (returnFromTrapHandler_eq .user t.hart))
  · refine ⟨.supervisor, rfl, ?_⟩
    show final (sret t.hart) = _ ∨ final (sret t.hart) = _
    unfold sret
    rw [illegalIf_bind]
    split_ifs
    · exact .inr rfl
    · exact .inl (congrArg final (returnFromTrapHandler_eq .supervisor t.hart))
  · exact ⟨.machine, rfl, .inl (congrArg final (returnFromTrapHandler_eq .machine t.hart))⟩

theorem getCsrValue_status {addr : CsrAddr} (hname : NamesStatus env addr)
    (cycles : M W (BitVec 64)) (h : Hart W) : getCsrValue env cycles addr h =
      .ok (h.csrs.mstatus &&& statusMask env addr) h := by
  have hcounter : counterWithheld h addr = false := by
    unfold counterWithheld
    rw [status_access hname, Bool.false_and]
  unfold getCsrValue validateCsrCounterReadAccessRights statusMask
  rw [illegalIf_bind, hcounter]
  rcases hname with hname | hname | hname <;> rw [hname] <;> rfl

theorem getLsbD_writeMasked (x v mask : Word) (k : ℕ) (hk : k < 32) :
    (writeMasked x v mask).getLsbD k = if mask.getLsbD k then v.getLsbD k else x.getLsbD k := by
  simp only [writeMasked, BitVec.getLsbD_or, BitVec.getLsbD_and, BitVec.getLsbD_not, hk]
  cases mask.getLsbD k <;> simp

theorem enableBit_lt (m : Mode) : m.enableBit < 32 := by cases m <;> decide

/-- A write to `mstatus` that does not set the bit. -/
theorem CsrWrite.masked (hname : NamesStatus env i.csr) {old : Word} {h h₁ h' : Hart W}
    (hwrite : CsrWrite (KeptHart .user) env i op old h h₁ h')
    (hresult : (statusMask env i.csr).getLsbD m.enableBit = true →
      (statusResult env h i op).getLsbD m.enableBit = false) : StaysMasked m h h' := by
  intro hclear
  have hcall := hwrite.call
  have hbefore := hwrite.before.xie m
  rw [hclear, xie_eq] at hbefore
  have hset : h'.csrs.mstatus = writeMasked h₁.csrs.mstatus
      (csrResult old (csrOperand i h op) op) (statusMask env i.csr) := by
    unfold setCsrValue at hcall
    unfold statusMask
    rcases hname with hname | hname | hname <;> rw [hname] at hcall ⊢ <;> cases hcall <;> rfl
  rw [xie_eq, hset, getLsbD_writeMasked _ _ _ _ (enableBit_lt m)]
  split_ifs with hmask
  · have hsame : csrResult old (csrOperand i h op) op = statusResult env h i op := by
      rcases hwrite.read with (rfl | rfl) | ⟨cycles, h₂, hget⟩
      · rfl
      · rfl
      · rw [getCsrValue_status hname] at hget
        cases hget
        rfl
    rw [hsame]
    exact hresult hmask
  · exact hbefore

theorem exec_masked (hmaps : MapsCsrs env) (hop : ¬Unmasks env m t.hart i op) :
    StaysMasked m t.hart (final (exec env b i op t)).hart := by
  intro hclear
  have hkeeps {h' : Hart W} (hkept : KeptHart .user t.hart h') : h'.csrs.xie m = false :=
    (hkept.xie m).trans hclear
  by_cases hreturn : IsReturn op
  · obtain ⟨n, rfl, hleave | hsame⟩ := exec_return_leaves env b i t hreturn
    · have hne : m ≠ n := by
        rintro rfl
        exact hop (.inl rfl)
      rw [hleave]
      exact (xie_leave t.hart.csrs hne).trans hclear
    · rwa [hsame]
  by_cases hcsr : IsCsr op
  · cases hr : exec env b i op t with
    | ok _ t' =>
      rcases exec_csr_ok (R := KeptHart .user) hcsr hr with ⟨-, hkept⟩ | ⟨hwrites, old, h₁, hwrite⟩
      · exact hkeeps hkept
      · by_cases hname : NamesStatus env i.csr
        · refine hwrite.masked hname (fun hmask => ?_) hclear
          by_contra hset
          exact hop (.inr ⟨hclear, hwrites, hname, hwrite.access, hmask, by simpa using hset⟩)
        · have hkept := (setCsrValue_privilege hmaps hname _).ok hwrite.call
          exact (xie_congr (congrArg Prod.snd hkept) m).trans (hkeeps hwrite.before)
    | error e t' =>
      rcases (closes_exec (R := KeptHart .user) b env i hcsr).rel t with
        hkept | ⟨_, t₁, ⟨_, ⟨-, v, rfl⟩, rfl⟩, hkept, heq⟩
      · rw [hr] at hkept
        exact hkeeps hkept
      · obtain ⟨h', hset, rfl⟩ := lift_error (heq.symm.trans hr)
        rw [setCsrValue_error hset] at *
        exact hkeeps hkept
  by_cases hfloat : IsFloat op = true
  · have hkept := (respects_execFloat (R := KeptHart .user) env i op).rel t.hart
    rw [exec_float env b i hfloat, final_lift]
    exact hkeeps hkept
  · exact hkeeps ((respects_exec_kind (R := KeptHart .user) env i b hreturn
      (fun h => absurd h hcsr) (fun h => absurd h hfloat) fun _ => inferInstance).rel t)

end Exec

/-! ### Steps -/

section Steps

variable {env : Env W} {b : Build} {m n : Mode} {pc : Word} {h h' : Hart W} {t t' : TimedHart W}

theorem stays_of_mstatus (hsame : h'.csrs.mstatus = h.csrs.mstatus) : StaysMasked m h h' :=
  fun hclear => (xie_congr hsame m).trans hclear

instance : IsPreorder (Hart W) (StaysMasked m) where
  refl _ := id
  trans _ _ _ h₁ h₂ := h₂ ∘ h₁

instance : IntegerFrame (StaysMasked (W := W) m) where
  regs _ _ := id
  pc _ _ := id
  status _ _ := id
  shallExit _ _ := id
  niceUart _ _ op := stays_of_mstatus (by cases op <;> rfl)
  world _ _ := stays_of_mstatus rfl

instance : DecodeFrame (StaysMasked (W := W) m) where
  decoded _ _ _ := id

theorem Entry.xie (he : Entry env n pc h h') (m : Mode) :
    h'.csrs.xie m = if m = n then false else h.csrs.xie m := by
  obtain ⟨c, -, hstatus, -, -, rfl⟩ := he.eq_enter
  refine (xie_enter _ h.prv pc n m).trans ?_
  split_ifs
  · rfl
  · exact xie_congr hstatus m

instance : StepFrame (StaysMasked (W := W) m) where
  settled hsettled := stays_of_mstatus (congrArg (·.2.2.mstatus) hsettled)
  recorded _ n _ _ := stays_of_mstatus (by cases n <;> rfl)
  entry he hclear := by
    rw [he.xie]
    split_ifs
    · rfl
    · exact hclear

theorem execStep_masked (hmaps : MapsCsrs env) (hmasks : LeavesMasked env m t) :
    StaysMasked m t.hart (final (execStep env b { t with hart := startInstr t.hart })).hart :=
  execStep_frame fun h hf => exec_masked (t := { t with hart := h }) hmaps (hmasks h hf)

theorem runStep_masked (hmaps : MapsCsrs env) (hmasks : LeavesMasked env m t)
    (hr : runStep env b t = .ok () t') : StaysMasked m t.hart t'.hart :=
  runStep_frame (execStep_masked hmaps hmasks) hr

theorem masked_of_run (hmaps : MapsCsrs env) (hclear : t.hart.csrs.xie m = false)
    (hrun : Run env b (LeavesMasked env m) t t') : t'.hart.csrs.xie m = false := by
  induction hrun with
  | refl => exact hclear
  | tail _ hstep ih => exact runStep_masked hmaps hstep.1 hstep.2 ih

end Steps

/-! ### Interrupts -/

/-- The step delivers an interrupt to a mode. -/
def DeliversTo (env : Env W) (b : Build) (t : TimedHart W) (n : Mode) : Prop :=
  atBreakpoint t.hart = false ∧ ∃ t₁ x,
    execStep env b { t with hart := startInstr t.hart } = .ok () t₁ ∧
      computePendingInterrupts t₁.hart = some x ∧ x.targetMode = n.level

/-- A run whose steps satisfy a condition, with the modes to which it delivers interrupts. -/
inductive InterruptedRun (env : Env W) (b : Build) (condition : TimedHart W → Prop) :
    List Mode → TimedHart W → TimedHart W → Prop
  | refl (t : TimedHart W) : InterruptedRun env b condition [] t t
  | quiet {modes : List Mode} {t t₁ t₂ : TimedHart W}
      (hrun : InterruptedRun env b condition modes t t₁) (hcondition : condition t₁)
      (hnone : ∀ n, ¬DeliversTo env b t₁ n) (hstep : runStep env b t₁ = .ok () t₂) :
      InterruptedRun env b condition modes t t₂
  | interrupt {modes : List Mode} {n : Mode} {t t₁ t₂ : TimedHart W}
      (hrun : InterruptedRun env b condition modes t t₁) (hcondition : condition t₁)
      (hdelivers : DeliversTo env b t₁ n) (hstep : runStep env b t₁ = .ok () t₂) :
      InterruptedRun env b condition (modes ++ [n]) t t₂

section Interrupts

variable {env : Env W} {b : Build} {m n : Mode} {h : Hart W} {t t' : TimedHart W}

theorem InterruptedRun.run {p q : TimedHart W → Prop} {modes : List Mode}
    (hrun : InterruptedRun env b p modes t t') (hpq : ∀ t, p t → q t) : Run env b q t t' := by
  induction hrun with
  | refl => exact .refl
  | quiet _ hp _ hstep ih => exact ih.tail ⟨hpq _ hp, hstep⟩
  | interrupt _ hp _ hstep ih => exact ih.tail ⟨hpq _ hp, hstep⟩

/-- An interrupt goes to a mode that is open. -/
theorem open_of_pending {x : PendingInterrupts} (hpending : computePendingInterrupts h = some x)
    (htarget : x.targetMode = n.level) : h.Open n := by
  rw [computePendingInterrupts_eq] at hpending
  split_ifs at hpending with hmachine hsupervisor huser <;> cases hpending
  · obtain rfl := level_injective (m := .machine) htarget
    exact hmachine.2
  · obtain rfl := level_injective (m := .supervisor) htarget
    exact hsupervisor.2
  · obtain rfl := level_injective (m := .user) htarget
    exact huser.2

/-- The instruction can neither set the bit of `m` nor take the hart below `m`. -/
structure Inside (env : Env W) (b : Build) (m : Mode) (t : TimedHart W) : Prop where
  masks : LeavesMasked env m t
  above : ∀ t₁, execStep env b { t with hart := startInstr t.hart } = .ok () t₁ →
    m.level ≤ t₁.hart.prv

theorem lt_of_level_le (hle : m.level ≤ n.level) (hne : m ≠ n) : m.level < n.level := by
  revert hle hne
  cases m <;> cases n <;> decide

theorem DeliversTo.above (hmaps : MapsCsrs env) (hinside : Inside env b m t)
    (hclear : t.hart.csrs.xie m = false) (hdelivers : DeliversTo env b t n) :
    m.level < n.level := by
  obtain ⟨-, t₁, x, hok, hpending, htarget⟩ := hdelivers
  have hlevel := hinside.above t₁ hok
  have hmasked := execStep_masked (b := b) hmaps hinside.masks hclear
  rw [hok] at hmasked
  rcases open_of_pending hpending htarget with hlt | ⟨heq, hset⟩
  · rw [BitVec.lt_def] at hlt ⊢
    rw [BitVec.le_def] at hlevel
    omega
  · by_cases hsame : m = n
    · subst hsame
      exact absurd (hmasked.symm.trans hset) (by decide)
    · rw [heq] at hlevel
      exact lt_of_level_le hlevel hsame

end Interrupts

/-! ### Handlers that are interrupted -/

/-- The unlock of the bus raises no trap. -/
def Env.UnlocksQuietly (env : Env W) : Prop :=
  ∀ view w e w', env.atomicUnlock view w = (.error e, w') → ¬IsTrap e

/-- The instruction of the step sets no interrupt enable bit, and is no return. -/
def NeverUnmasks (env : Env W) (t : TimedHart W) : Prop := ∀ m, LeavesMasked env m t

/-- From one of the three levels the hart comes to one of them, and no mode has opened. -/
def Narrows (h h' : Hart W) : Prop :=
  IsLevel h.prv → IsLevel h'.prv ∧ ∀ m, h'.Open m → h.Open m

section Narrowing

variable {env : Env W} {b : Build} {m n : Mode} {pc : Word} {h h' : Hart W} {t t' : TimedHart W}

theorem narrows_of (hprv : h'.prv = h.prv) (hmasked : ∀ m, StaysMasked m h h') : Narrows h h' := by
  intro hlevel
  refine ⟨hprv ▸ hlevel, fun m hopen => ?_⟩
  rcases hopen with hlt | ⟨heq, hset⟩
  · exact .inl (hprv ▸ hlt)
  · refine .inr ⟨hprv ▸ heq, ?_⟩
    by_contra hclear
    exact absurd ((hmasked m (by simpa using hclear)).symm.trans hset) (by decide)

instance : IsPreorder (Hart W) Narrows where
  refl _ hlevel := ⟨hlevel, fun _ => id⟩
  trans _ _ _ h₁ h₂ hlevel := by
    obtain ⟨hlevel₁, hopen₁⟩ := h₁ hlevel
    obtain ⟨hlevel₂, hopen₂⟩ := h₂ hlevel₁
    exact ⟨hlevel₂, fun m hm => hopen₁ m (hopen₂ m hm)⟩

instance : IntegerFrame (Narrows (W := W)) where
  regs h regs := narrows_of rfl fun _ => IntegerFrame.regs h regs
  pc h pc := narrows_of rfl fun _ => IntegerFrame.pc h pc
  status h status := narrows_of rfl fun _ => IntegerFrame.status h status
  shallExit h exit := narrows_of rfl fun _ => IntegerFrame.shallExit h exit
  niceUart h u op := narrows_of (by cases op <;> rfl) fun _ => IntegerFrame.niceUart h u op
  world h w := narrows_of rfl fun _ => IntegerFrame.world h w

instance : DecodeFrame (Narrows (W := W)) where
  decoded h op i := narrows_of rfl fun _ => DecodeFrame.decoded h op i

/-- In a handler only the modes above it are open. -/
theorem Entry.opens (he : Entry env n pc h h') (hopen : h'.Open m) : n.level < m.level := by
  rcases hopen with hlt | ⟨heq, hset⟩
  · rwa [he.prv] at hlt
  · rw [he.prv] at heq
    obtain rfl := level_injective heq
    rw [he.xie, if_pos rfl] at hset
    cases hset

theorem Entry.level_le (he : Entry env n pc h h') (hlevel : IsLevel h.prv) : h.prv ≤ n.level := by
  obtain ⟨c, -, -, -, hle, -⟩ := he.eq_enter
  obtain ⟨m₀, hm₀⟩ := hlevel
  exact hm₀ ▸ hle m₀ hm₀

instance : StepFrame (Narrows (W := W)) where
  settled hsettled := narrows_of (congrArg (·.1) hsettled) fun _ => StepFrame.settled hsettled
  recorded h n cause w := narrows_of rfl fun _ => StepFrame.recorded h n cause w
  entry := by
    intro env n pc h h' he hlevel
    refine ⟨⟨n, he.prv⟩, fun m hopen => .inl ?_⟩
    have habove := he.opens hopen
    have hle := he.level_le hlevel
    rw [BitVec.lt_def] at habove ⊢
    rw [BitVec.le_def] at hle
    omega

theorem execStep_narrows (hmaps : MapsCsrs env) (hnever : NeverUnmasks env t) :
    Narrows t.hart (final (execStep env b { t with hart := startInstr t.hart })).hart := by
  refine execStep_frame fun h hf => ?_
  have hreturn : ¬IsReturn h.op := by
    rintro (hop | hop | hop)
    · exact hnever .user h hf (.inl hop)
    · exact hnever .supervisor h hf (.inl hop)
    · exact hnever .machine h hf (.inl hop)
  refine narrows_of ((respects_exec_prv env b h.instr hreturn).rel { t with hart := h }) fun m => ?_
  exact exec_masked (t := { t with hart := h }) hmaps (hnever m h hf)

theorem runStep_narrows (hmaps : MapsCsrs env) (hnever : NeverUnmasks env t)
    (hr : runStep env b t = .ok () t') : Narrows t.hart t'.hart :=
  runStep_frame (execStep_narrows hmaps hnever) hr

/-- An interrupt that cannot be recorded is no trap. -/
theorem prepareInterrupt_not_trap {x : PendingInterrupts} {e : Raise}
    (hr : prepareInterrupt x h = .error e h') : ¬IsTrap e := by
  rintro ⟨trap, rfl⟩
  unfold prepareInterrupt unknownPrivilegeLevel at hr
  cases hfirst : firstInterrupt x.pending with
  | none =>
    rw [hfirst] at hr
    cases hr
  | some exc =>
    simp only [hfirst] at hr
    split_ifs at hr <;> cases hr

/-- What a step that delivers an interrupt does. -/
theorem DeliversTo.entry (hunlock : env.UnlocksQuietly) (hdelivers : DeliversTo env b t n)
    (hr : runStep env b t = .ok () t') : ∃ t₁ h₁,
      execStep env b { t with hart := startInstr t.hart } = .ok () t₁ ∧ t₁.hart.Open n ∧
        Entry env n t₁.hart.pc t₁.hart h₁ ∧ Unchanged settled h₁ t'.hart := by
  obtain ⟨hbreak, t₁, x, hok, hpending, htarget⟩ := hdelivers
  rcases runStep_ok hr with ⟨hstop, -⟩ | ⟨-, t₂, htake, hafter⟩
  · exact absurd (hstop.symm.trans hbreak) (by decide)
  have hsettled := (respects_afterInstr_settled env b).rel t₂
  rw [hafter] at hsettled
  have hdeliver := deliverInterrupt_eq env t₁.hart
  rw [hpending] at hdeliver
  rcases takeStep_cases htake with ⟨t₃, h₁, hok', hentry, rfl⟩ |
    ⟨t₃, e, h₁, h₂, hok', herror, hcatch, rfl⟩ | ⟨t₃, e, h₁, herror, -⟩
  · cases hok.symm.trans hok'
    obtain ⟨_, h₂, hprepare, hswitch⟩ := bind_eq_ok.1 (hdeliver.symm.trans hentry)
    rw [htarget] at hswitch
    exact ⟨t₁, h₁, hok, open_of_pending hpending htarget,
      .interrupt hpending htarget hprepare hswitch, hsettled⟩
  · -- what fails here is no trap, and passes `catch`
    cases hok.symm.trans hok'
    have hnot : ¬IsTrap e := by
      rcases bind_eq_error.1 (hdeliver.symm.trans herror) with hprepare | ⟨_, h₃, -, hswitch⟩
      · exact prepareInterrupt_not_trap hprepare
      · rw [htarget] at hswitch
        obtain ⟨w, hcall, -⟩ := access_eq_error.1 (switchToTrapHandler_unlock hswitch)
        exact hunlock _ _ _ _ hcall
    cases e with
    | trap trap => exact absurd ⟨trap, rfl⟩ hnot
    | _ => cases hcatch
  · cases hok.symm.trans herror

end Narrowing

/-- The interrupts of a run ascend, and lead to a state in which only modes above them are open. -/
structure Ascends (modes : List Mode) (h h' : Hart W) : Prop where
  pairwise : modes.Pairwise fun n n' => n.level < n'.level
  closed : ∀ n ∈ modes, h.Open n ∧ ∀ m, h'.Open m → n.level < m.level
  narrows : Narrows h h'

theorem Ascends.narrow {modes : List Mode} {h h₁ h₂ : Hart W} (hlevel : IsLevel h.prv)
    (hascends : Ascends modes h h₁) (hnarrows : Narrows h₁ h₂) : Ascends modes h h₂ := by
  have hopens := (hnarrows (hascends.narrows hlevel).1).2
  refine ⟨hascends.pairwise, fun n hn => ?_, trans_of Narrows hascends.narrows hnarrows⟩
  obtain ⟨hopen, habove⟩ := hascends.closed n hn
  exact ⟨hopen, fun m hm => habove m (hopens m hm)⟩

/-- An interrupt goes to a mode above the earlier ones, and closes it. -/
theorem Ascends.interrupt {modes : List Mode} {n : Mode} {h h₁ h₂ : Hart W} (hlevel : IsLevel h.prv)
    (hascends : Ascends modes h h₁) (hnarrows : Narrows h₁ h₂) (hopen : h₁.Open n)
    (hcloses : ∀ m, h₂.Open m → n.level < m.level) : Ascends (modes ++ [n]) h h₂ := by
  have hnarrow := hascends.narrow hlevel hnarrows
  refine ⟨List.pairwise_append.2 ⟨hascends.pairwise, List.pairwise_singleton _ n, ?_⟩, ?_,
    hnarrow.narrows⟩
  · intro n₀ hn₀ n' hn'
    obtain rfl := List.mem_singleton.1 hn'
    exact (hascends.closed n₀ hn₀).2 n' hopen
  · intro n' hn'
    rcases List.mem_append.1 hn' with hn' | hn'
    · exact hnarrow.closed n' hn'
    · obtain rfl := List.mem_singleton.1 hn'
      exact ⟨(hascends.narrows hlevel).2 n' hopen, hcloses⟩

/-- There are three modes. -/
theorem length_le_of_pairwise {modes : List Mode}
    (h : modes.Pairwise fun n n' => n.level < n'.level) : modes.length ≤ 3 := by
  have hnodup : modes.Nodup := h.imp fun hlt heq => by
    rw [heq] at hlt
    exact absurd hlt (BitVec.lt_irrefl _)
  have hall : modes ⊆ [.user, .supervisor, .machine] := fun m _ => by cases m <;> decide
  exact (hnodup.subperm hall).length_le

/-! ### Main results -/

/-- A hart on a memory of `ADDI x0, x0, 0`, with supervisor and user mode, a timer interrupt for
machine mode and a delegated software interrupt for supervisor mode pending. -/
def twoPending (prv : PrivilegeLevel) : TimedHart BareMemory where
  hart := { Hart.reset prv 0x00140100 0 fun _ => 0x00000013 with
    csrs := { Csrs.reset 0x00140100 0 with mie := 0x82, mip := 0x82, mideleg := 0x2 } }
  pipeline := .empty 0

end Vcil.Iss
