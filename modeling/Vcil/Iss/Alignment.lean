import Vcil.Iss.Frames
import Vcil.Iss.TrapNesting

/-!
# Aligned instruction addresses

`exec_step` asserts that `pc` is an instruction address.  `pc` is written by the decoder, by branches
and jumps, by the returns from the three return address registers, by trap entry from the trap vector
registers, and by the rollback of an instruction that traps; the return address registers are written
by software too.  All of them keep to the alignment.

* `Env.ChecksAlignment`: what the platform says about alignment;
* `Saved`, `Sound`: the addresses a trap can go back to are aligned, and `pc` is;
* `execStep_sound`, `takeStep_sound`: an instruction and a step keep `Sound`;
* `pc_aligned_of_run`: the assertion holds in every state of a run.
-/

namespace Vcil.Iss

open Fallible

variable {W : Type} (env : Env W) (b : Build)

/-! ### Addresses -/

/-- An instruction address. -/
def Env.PcAligned (misa pc : Word) : Prop := pc &&& ~~~env.pcAlignmentMask misa = 0

/-- Instruction addresses are even with compressed instructions, and multiples of four without; the
check of a jump agrees, and what `set_csr_value` leaves to `default_write32` are no return
addresses. -/
structure Env.ChecksAlignment : Prop where
  mask : ∀ misa, env.pcAlignmentMask misa = if hasExt misa .c then ~~~1 else ~~~3
  check : ∀ misa pc, env.trapCheckPcAlignment misa pc = none ↔ env.PcAligned misa pc
  defaultWrite : ∀ addr v, ¬NamesReturn env addr →
    env.KeepsEpcs fun c => env.defaultWrite32 c addr v

theorem and_one_eq_zero (x : Word) : x &&& 1 = 0 ↔ x.toNat % 2 = 0 := by
  rw [← BitVec.toNat_inj, BitVec.toNat_and]
  show x.toNat &&& (2 ^ 1 - 1) = 0 ↔ _
  rw [Nat.and_two_pow_sub_one_eq_mod]

theorem and_three_eq_zero (x : Word) : x &&& 3 = 0 ↔ x.toNat % 4 = 0 := by
  rw [← BitVec.toNat_inj, BitVec.toNat_and]
  show x.toNat &&& (2 ^ 2 - 1) = 0 ↔ _
  rw [Nat.and_two_pow_sub_one_eq_mod]

variable {env} (henv : env.ChecksAlignment)

section

include henv

theorem pcAligned_iff (misa pc : Word) :
    env.PcAligned misa pc ↔ pc.toNat % (if hasExt misa .c then 2 else 4) = 0 := by
  rw [Env.PcAligned, henv.mask]
  split
  · rw [BitVec.not_not]
    exact and_one_eq_zero pc
  · rw [BitVec.not_not]
    exact and_three_eq_zero pc

/-- The instruction after a normal one. -/
theorem pcAligned_add_four {misa pc : Word} (h : env.PcAligned misa pc) :
    env.PcAligned misa (pc + 4) := by
  rw [pcAligned_iff henv] at h ⊢
  have hsum : (pc + 4).toNat = (pc.toNat + 4) % 2 ^ 32 := by rw [BitVec.toNat_add]; rfl
  rw [hsum]
  split_ifs at h ⊢ <;> omega

/-- The instruction after a compressed one. -/
theorem pcAligned_add_two {misa pc : Word} (hc : hasExt misa .c = true)
    (h : env.PcAligned misa pc) : env.PcAligned misa (pc + 2) := by
  rw [pcAligned_iff henv, if_pos hc] at h ⊢
  have hsum : (pc + 2).toNat = (pc.toNat + 2) % 2 ^ 32 := by rw [BitVec.toNat_add]; rfl
  omega

/-- Handlers begin at multiples of four. -/
theorem pcAligned_handlerAddress (misa tvec cause : Word) :
    env.PcAligned misa (handlerAddress tvec cause) := by
  have hbase : (tvec &&& ~~~3).toNat % 4 = 0 := by
    rw [← and_three_eq_zero, BitVec.and_assoc]
    exact BitVec.and_zero
  have hmul : (handlerAddress tvec cause).toNat % 4 = 0 := by
    unfold handlerAddress
    dsimp only
    split
    · have hfour : (4 : Word).toNat = 4 := rfl
      rw [BitVec.toNat_add, BitVec.toNat_mul, hfour]
      omega
    · exact hbase
  rw [pcAligned_iff henv]
  split <;> omega

end

/-! ### What is kept -/

/-- The addresses that a trap or a return can go back to are aligned. -/
def Saved (env : Env W) (h : Hart W) : Prop :=
  env.EpcsAligned h.csrs ∧ env.PcAligned h.csrs.misa h.lastPc

/-- So is `pc`. -/
def Sound (env : Env W) (h : Hart W) : Prop := Saved env h ∧ env.PcAligned h.csrs.misa h.pc

def KeepsSaved (env : Env W) (h h' : Hart W) : Prop := Saved env h → Saved env h'

instance : IsPreorder (Hart W) (KeepsSaved env) where
  refl _ := id
  trans _ _ _ h₁ h₂ := h₂ ∘ h₁

def KeepsSound (env : Env W) (h h' : Hart W) : Prop := Sound env h → Sound env h'

instance : IsPreorder (Hart W) (KeepsSound env) where
  refl _ := id
  trans _ _ _ h₁ h₂ := h₂ ∘ h₁

/-- An exception leaves the addresses to go back to. -/
def SavedAfter (env : Env W) (_e : Raise) (h h' : Hart W) : Prop := Sound env h → Saved env h'

theorem savedAfter_trans (e : Raise) (h h₁ h' : Hart W) (hkeep : KeepsSound env h h₁)
    (hsaved : SavedAfter env e h₁ h') : SavedAfter env e h h' := fun hsound => hsaved (hkeep hsound)

section

variable {α : Type} {m : M W α}

theorem ends_of_sound (hm : Respects (KeepsSound env) m) :
    Ends (KeepsSound env) (SavedAfter env) m := by
  refine .of_respects hm fun h e h' hr hsound => ?_
  have hkeep := hm.rel h hsound
  rw [hr] at hkeep
  exact hkeep.1

theorem sound_setCsrs {f : Csrs → Csrs} (hf : env.KeepsEpcs f) :
    Respects (KeepsSound env) (setCsrs f : M W Unit) := by
  refine .modify fun h => ?_
  rintro ⟨⟨hepcs, hlast⟩, hpc⟩
  have hmisa : (f h.csrs).misa = h.csrs.misa := hf.misa _
  rw [← hmisa] at hlast hpc
  exact ⟨⟨hf.aligned _ hepcs, hlast⟩, hpc⟩

theorem sound_access (f : Access W α) : Respects (KeepsSound env) (access f) := by
  constructor
  intro h hsound
  unfold access
  split
  · exact hsound
  · exact hsound

theorem sound_niceCall (op : Op) (x y : Word) :
    Respects (KeepsSound env) (niceCall env op x y) := by
  constructor
  intro h hsound
  unfold niceCall
  split
  · dsimp only
    split
    · cases op <;> exact hsound
    · exact hsound
  · exact hsound

theorem sound_ecallTrap : Respects (KeepsSound env) (ecallTrap : M W Unit) := by
  unfold ecallTrap raiseTrap unknownPrivilegeLevel
  infer_instance

include henv

theorem sound_quiet (hm : Quiet env α m) : Respects (KeepsSound env) m := by
  cases hm with
  | csrs f hf => exact sound_setCsrs hf
  | defaultWrite addr v haddr => exact sound_setCsrs (henv.defaultWrite addr v haddr)
  | exceptionFlags flags => exact .modify fun _ hsound => hsound
  | roundingMode => exact .modify fun _ hsound => hsound
  | lrScCounter n => exact .modify fun _ hsound => hsound
  | ebreak => exact .modify fun _ hsound => hsound
  | _ => infer_instance

/-- A jump leaves `pc` misaligned only when it raises the trap. -/
theorem ends_jump (f : Hart W → Word) : Ends (KeepsSound env) (SavedAfter env)
    (do modify fun h => { h with pc := f h }; trapCheckPcAlignment env : M W Unit) := by
  constructor
  · intro h u h' hr hsound
    rw [jump_eq] at hr
    split at hr
    · cases hr
      exact ⟨hsound.1, (henv.check _ _).1 ‹_›⟩
    · cases hr
  · intro h e h' hr hsound
    rw [jump_eq] at hr
    split at hr
    · cases hr
    · cases hr
      exact hsound.1

theorem ends_part (hm : Part env α m) : Ends (KeepsSound env) (SavedAfter env) m := by
  cases hm with
  | keep hm =>
    cases hm with
    | quiet hm => exact ends_of_sound (sound_quiet henv hm)
    | trap e => exact ends_of_sound inferInstance
    | ecallTrap => exact ends_of_sound sound_ecallTrap
    | read f hf => exact ends_of_sound (sound_access f)
    | mtime => exact ends_of_sound (.modify fun _ hsound => hsound)
    | jump f => exact ends_jump henv f
  | last hm =>
    cases hm with
    | store f hf => exact ends_of_sound (sound_access f)
  | free hm =>
    cases hm with
    | quiet hm => exact ends_of_sound (sound_quiet henv hm)
    | niceCall op x y => exact ends_of_sound (sound_niceCall op x y)
    | _ => exact ends_of_sound (.modify fun _ hsound => hsound)
  | amo f i regs => exact ends_of_sound (sound_access _)

theorem sound_stepPart (hm : StepPart env α m) : Respects (KeepsSound env) m := by
  cases hm with
  | quiet hm => exact sound_quiet henv hm
  | unlock => exact sound_access _
  | _ => exact .modify fun _ hsound => hsound

end

/-! ### Instructions -/

theorem sound_leave (m : Mode) {h : Hart W} (hsound : Sound env h) : Sound env (h.leave m) := by
  obtain ⟨⟨hepcs, hlast⟩, hpc⟩ := hsound
  cases m
  all_goals exact ⟨⟨hepcs, hlast⟩, hepcs _⟩

theorem respects_saved_fetchPart {α : Type} {m : M W α} (hm : FetchPart env α m) :
    Respects (KeepsSaved env) m := by
  cases hm with
  | loadInstr =>
    constructor
    intro h hsaved
    obtain ⟨op, instr, hfinal⟩ := loadInstr_final env h
    rw [hfinal]
    exact hsaved
  | decode f => exact .modify fun _ hsaved => hsaved
  | _ => infer_instance

section

include henv

/-- Decoding advances `pc` by the length of the instruction. -/
theorem decode_sound {h h' : Hart W} (hsound : Sound env h) (hr : decode env h = .ok () h') :
    Saved env h' ∧ (h'.op = .undef ∨ env.PcAligned h'.csrs.misa h'.pc) := by
  have hnormal (hr : decodeNormal env h = .ok () h') :
      Saved env h' ∧ (h'.op = .undef ∨ env.PcAligned h'.csrs.misa h'.pc) := by
    cases hr
    exact ⟨hsound.1, .inr (pcAligned_add_four henv hsound.2)⟩
  change (if env.isCustom h.instr then decodeNormal env
    else if env.isCompressed h.instr then decodeCompressed env
    else decodeNormal env : M W Unit) h = _ at hr
  split_ifs at hr with hcustom hcompressed
  · exact hnormal hr
  · obtain ⟨_, h₁, hexpand, hcheck⟩ := bind_eq_ok.1 hr
    cases hexpand
    obtain ⟨hlegal, rfl⟩ := illegalIf_ok hcheck
    refine ⟨hsound.1, ?_⟩
    by_cases hundef : (env.decodeAndExpandCompressed h.instr).1 = .undef
    · exact .inl hundef
    · have hc : hasExt h.csrs.misa .c = true := by simpa [hundef] using hlegal
      exact .inr (pcAligned_add_two henv hc hsound.2)
  · exact hnormal hr

theorem fetch_sound {h h' : Hart W} (hsound : Sound env h) (hr : fetch env h = .ok () h') :
    Saved env h' ∧ (h'.op = .undef ∨ env.PcAligned h'.csrs.misa h'.pc) := by
  obtain ⟨_, h₁, hassert, hr⟩ := bind_eq_ok.1 hr
  rw [assert_eq] at hassert
  split_ifs at hassert
  cases hassert
  obtain ⟨_, h₂, hload, hr⟩ := bind_eq_ok.1 hr
  refine decode_sound henv ?_ hr
  obtain ⟨op, instr, hfinal⟩ := loadInstr_final env h
  rw [hload] at hfinal
  rw [show h₂ = _ from hfinal]
  exact hsound

omit henv in
theorem fetch_saved {e : Raise} {h h' : Hart W} (hsaved : Saved env h)
    (hr : fetch env h = .error e h') : Saved env h' := by
  have hkeep := (made_fetch.respects respects_saved_fetchPart).rel h hsaved
  rwa [hr] at hkeep

theorem ends_exec (i : Instruction) (op : Opcode) : Ends (OnHart (KeepsSound env))
    (fun e t t' => SavedAfter env e t.hart t'.hart) (exec env b i op) := by
  by_cases hop : IsReturn op
  · rw [exec_return env b i hop]
    constructor
    · intro t u t' hr hsound
      obtain ⟨h', hshared, rfl⟩ := lift_ok hr
      rcases return_cases env i hop t.hart with ⟨m, -, hreturn⟩ | hillegal
      · cases hreturn.symm.trans hshared
        exact sound_leave m hsound
      · cases hillegal.symm.trans hshared
    · intro t e t' hr hsound
      obtain ⟨h', hshared, rfl⟩ := lift_error hr
      rcases return_cases env i hop t.hart with ⟨m, -, hreturn⟩ | hillegal
      · cases hreturn.symm.trans hshared
      · cases hillegal.symm.trans hshared
        exact hsound.1
  · exact (made_exec b i hop).ends (fun e t t₁ t' => savedAfter_trans e t.hart t₁.hart t'.hart)
      fun hm => hm.ends (fun _ hsound => hsound.1) (ends_part henv)

omit henv in
theorem exec_undef (i : Instruction) (t : TimedHart W) : exec env b i .undef t =
    .error (.trap ⟨excIllegalInstr, t.hart.instr.data.setWidth 64⟩) t := by
  cases b <;> rfl

theorem execStep_sound {t t' : TimedHart W} (hsound : Sound env t.hart)
    (hr : execStep env b t = .ok () t') : Sound env t'.hart := by
  cases hf : fetch env t.hart with
  | ok u h =>
    rw [execStep_of_fetch env b hf] at hr
    obtain ⟨hsaved, hundef | hpc⟩ := fetch_sound henv hsound hf
    · rw [hundef, exec_undef] at hr
      cases hr
    · exact (ends_exec b henv h.instr h.op).ok hr ⟨hsaved, hpc⟩
  | error e h =>
    rw [execStep_eq, hf] at hr
    cases hr

theorem execStep_saved {t t' : TimedHart W} {e : Raise} (hsound : Sound env t.hart)
    (hr : execStep env b t = .error e t') : Saved env t'.hart := by
  cases hf : fetch env t.hart with
  | ok u h =>
    rw [execStep_of_fetch env b hf] at hr
    obtain ⟨hsaved, hundef | hpc⟩ := fetch_sound henv hsound hf
    · rw [hundef, exec_undef] at hr
      cases hr
      exact hsaved
    · exact (ends_exec b henv h.instr h.op).error hr ⟨hsaved, hpc⟩
  | error e₁ h =>
    rw [execStep_eq, hf] at hr
    cases hr
    exact fetch_saved hsound.1 hf

/-! ### Trap entry -/

theorem sound_enter (m : Mode) {h : Hart W} (hepcs : ∀ m', m' ≠ m →
      env.PcAligned h.csrs.misa (h.csrs.epc m'))
    (hlast : env.PcAligned h.csrs.misa h.lastPc) (hpc : env.PcAligned h.csrs.misa h.pc) :
    Sound env (h.enter m) := by
  refine ⟨⟨fun m' => ?_, ?_⟩, ?_⟩
  · by_cases hm : m' = m
    · subst hm
      cases m' <;> exact hpc
    · have hother := hepcs m' hm
      cases m <;> cases m' <;> first | exact absurd rfl hm | exact hother
  · cases m <;> exact hlast
  · cases m <;> exact pcAligned_handlerAddress henv _ _ _

theorem Entry.sound {m : Mode} {pc : Word} {h h' : Hart W} (he : Entry env m pc h h')
    (hsaved : Saved env h) (hpc : env.PcAligned h.csrs.misa pc) : Sound env h' := by
  obtain ⟨c, hothers, -, hmisa, -, rfl⟩ := he.eq_enter
  refine sound_enter henv m (fun m' hm => ?_) ?_ ?_
  · have hepc : c.epc m' = h.csrs.epc m' := by
      have htrap := congrArg TrapRegs.epc (hothers.trapRegs m' hm)
      cases m' <;> exact htrap
    show env.PcAligned c.misa (Csrs.epc { c with mip := _ } m')
    rw [hmisa]
    have haligned := hsaved.1 m'
    rw [← hepc] at haligned
    cases m' <;> exact haligned
  · show env.PcAligned c.misa h.lastPc
    rw [hmisa]
    exact hsaved.2
  · show env.PcAligned c.misa pc
    rw [hmisa]
    exact hpc

theorem catchTrap_sound {e : Raise} {h h' : Hart W} (hsaved : Saved env h)
    (hr : catchTrap env e h = .ok () h') : Sound env h' := by
  obtain ⟨m, hentry⟩ := catchTrap_entry hr
  exact hentry.sound henv hsaved hsaved.2

theorem deliverInterrupt_sound {h h' : Hart W} (hsound : Sound env h)
    (hr : deliverInterrupt env h = .ok () h') : Sound env h' := by
  rcases deliverInterrupt_entry hr with ⟨-, rfl⟩ | ⟨m, hentry⟩
  · exact hsound
  · exact hentry.sound henv hsound.1 hsound.2

omit henv in
/-- An interrupt that fails has written no more than a cause register. -/
theorem deliverInterrupt_saved {e : Raise} {h h' : Hart W} (hsaved : Saved env h)
    (hr : deliverInterrupt env h = .error e h') : Saved env h' := by
  obtain ⟨i, m, htarget, hprepare | ⟨h₁, hprepare, hswitch⟩⟩ := deliverInterrupt_error hr
  · rw [prepareInterrupt_error htarget hprepare]
    exact hsaved
  · obtain ⟨cause, rfl⟩ := prepareInterrupt_ok htarget hprepare
    rw [switchToTrapHandler_error hswitch]
    cases m <;> exact hsaved

theorem takeStep_sound {t t' : TimedHart W} (hsound : Sound env t.hart)
    (hr : takeStep env b t = .ok () t') : Sound env t'.hart := by
  rcases takeStep_cases hr with ⟨t₁, h₁, hexec, hdeliver, rfl⟩ |
    ⟨t₁, e, h₁, h₂, hexec, hdeliver, hcatch, rfl⟩ | ⟨t₁, e, h₁, hexec, hcatch, rfl⟩
  · have hsound₁ := execStep_sound b henv hsound hexec
    exact deliverInterrupt_sound henv hsound₁ hdeliver
  · have hsound₁ := execStep_sound b henv hsound hexec
    exact catchTrap_sound henv (deliverInterrupt_saved hsound₁.1 hdeliver) hcatch
  · exact catchTrap_sound henv (execStep_saved b henv hsound hexec) hcatch

theorem afterInstr_sound {t t' : TimedHart W} (hsound : Sound env t.hart)
    (hr : afterInstr env b t = .ok () t') : Sound env t'.hart := by
  have hends : Ends (OnHart (KeepsSound env)) (fun e t t' => SavedAfter env e t.hart t'.hart)
      (afterInstr env b) :=
    (made_afterInstr b).ends (fun e t t₁ t' => savedAfter_trans e t.hart t₁.hart t'.hart)
      fun hm => hm.ends (fun _ hsound => hsound.1) fun hm => ends_of_sound (sound_stepPart henv hm)
  exact hends.ok hr hsound

/-! ### Runs -/

/-- Between the steps, the addresses to return to and `pc` are aligned; `last_pc` is not in use. -/
def AlignedHart (env : Env W) (h : Hart W) : Prop :=
  env.EpcsAligned h.csrs ∧ env.PcAligned h.csrs.misa h.pc

theorem runStep_aligned {t t' : TimedHart W} (halign : AlignedHart env t.hart)
    (hr : runStep env b t = .ok () t') : AlignedHart env t'.hart := by
  rcases runStep_ok hr with ⟨-, rfl⟩ | ⟨-, t₁, htake, hafter⟩
  · exact halign
  · have hstart : Sound env (startInstr t.hart) := ⟨⟨halign.1, halign.2⟩, halign.2⟩
    have htaken := takeStep_sound (t := { t with hart := startInstr t.hart }) b henv hstart htake
    have hsound := afterInstr_sound b henv htaken hafter
    exact ⟨hsound.1.1, hsound.2⟩

/-! ### Main result -/

/-- In every run from an aligned `pc` with aligned return addresses, the assertion at the head of
`exec_step` holds, whatever the program and its traps are. -/
theorem pc_aligned_of_run {t₀ t : TimedHart W} (hpc : env.PcAligned t₀.hart.csrs.misa t₀.hart.pc)
    (hepcs : env.EpcsAligned t₀.hart.csrs) (hrun : Run env b (fun _ => True) t₀ t) :
    t.hart.pc &&& ~~~env.pcAlignmentMask t.hart.csrs.misa = 0 := by
  have halign : AlignedHart env t.hart := by
    induction hrun with
    | refl => exact ⟨hepcs, hpc⟩
    | tail _ hstep ih => exact runStep_aligned b henv ih hstep.2
  exact halign.2

end

theorem checksAlignment_bare : Env.bare.ChecksAlignment where
  mask _ := rfl
  check misa pc := by
    have hmask : ~~~Env.bare.pcAlignmentMask misa = if hasExt misa .c then 1 else 3 := by
      show ~~~(if hasExt misa .c then ~~~1 else ~~~3) = _
      split <;> decide
    have hcheck : Env.bare.trapCheckPcAlignment misa pc =
      if pc &&& (if hasExt misa .c then 1 else 3) = 0 then none
      else some ⟨0, pc.setWidth 64⟩ := rfl
    rw [Env.PcAligned, hmask, hcheck]
    split <;> simp_all
  defaultWrite _ _ _ := ⟨fun _ => rfl, fun _ h => h⟩

/-- The first step of a user program whose instruction is illegal. -/
theorem pc_aligned_userTrap : let t := final (runStep Env.bare .plain ⟨userTrap, .empty 0⟩)
    t.hart.pc &&& ~~~Env.bare.pcAlignmentMask t.hart.csrs.misa = 0 := by
  have hrun : Run Env.bare .plain (fun _ => True) ⟨userTrap, .empty 0⟩
    (final (runStep Env.bare .plain ⟨userTrap, .empty 0⟩)) := .single ⟨trivial, rfl⟩
  refine pc_aligned_of_run .plain checksAlignment_bare ?_ ?_ hrun
  · rfl
  · intro m
    cases m <;> rfl

end Vcil.Iss
