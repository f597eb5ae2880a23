import Vcil.Iss.BareMetal
import Vcil.Iss.CsrInstr
import Vcil.Iss.FloatEffects

/-!
# Floating-point exception flags

SoftFloat accumulates flags in a variable of its own.  They should end up in `fcsr.fflags` with the
instruction that raises them, where only software clears them.

* `runStep_state`: what a step does to the floating-point state, its instruction does;
* `FlagsKept`: what holds in a state of a run;
* `flagsKept_of_run`: it holds in all states after one without flags.
-/

-- the bookkeeping is a chain of calls, each an instance
set_option synthInstance.maxSize 512

namespace Vcil.Iss

open Fallible

variable {W : Type} (env : Env W) (b : Build)

def fflags (h : Hart W) : BitVec 5 := Fcsr.fflags.get h.csrs.fcsr

/-- The instruction writes `fcsr` or `fflags`. -/
def WritesFflags (h : Hart W) : Prop :=
  WritesCsr h.instr h.op ∧
    (csrName env h.instr.csr = .fcsr ∨ csrName env h.instr.csr = .fflags)

/-- What holds in a state `t` of a run, where `h` is the hart before the instruction is executed. -/
structure FlagsKept (t : TimedHart W) : Prop where
  clear : t.hart.softfloatExceptionFlags = 0
  /-- The assertion of `fp_prepare_instr` holds. -/
  asserts : ∀ h, fetch env (startInstr t.hart) = .ok () h → fpPrepareInstr h = fpRequireNotOff h
  /-- A floating-point instruction adds the flags it has raised, none if it traps. -/
  collects : ∀ h t', atBreakpoint t.hart = false → runStep env b t = .ok () t' →
    fetch env (startInstr t.hart) = .ok () h → IsFloat h.op = true →
    fflags t'.hart = fflags t.hart ||| match exec env b h.instr h.op { t with hart := h } with
      | .ok _ _ => (raisedFlags env h.instr h h.op).setWidth 5
      | .error _ _ => 0
  /-- Only a CSR write clears a flag. -/
  grows : ∀ t', runStep env b t = .ok () t' → fflags t.hart &&& fflags t'.hart = fflags t.hart ∨
    ∃ h, fetch env (startInstr t.hart) = .ok () h ∧ WritesFflags env h

/-! ### The state after a step -/

section Step

variable {env b} {t t' t₁ : TimedHart W}

instance : WindowFrame (Unchanged (W := W) floatState) where
  lrScCounter _ _ := rfl

instance : DecodeFrame (Unchanged (W := W) floatState) where
  decoded _ _ _ := rfl

instance : CounterFrame (Unchanged (W := W) floatState) where
  time _ _ := rfl
  cycle _ _ := rfl

instance : HandlerFrame (Unchanged (W := W) floatState) where
  prv _ _ := rfl
  csrs _ _ _ _ _ _ _ _ _ _ _ := rfl

theorem respects_afterInstr (env : Env W) (b : Build) :
    Respects (OnHart (Unchanged floatState)) (afterInstr env b) := by
  have hfinish : Respects (Unchanged floatState) (modify finishInstr : M W Unit) :=
    .modify fun _ => rfl
  have hinstr : Respects (Unchanged floatState) (modify addInstr : M W Unit) := .modify fun _ => rfl
  have hcycles (n : ℕ) : Respects (Unchanged floatState) (modify (addCycles n) : M W Unit) :=
    .modify fun _ => rfl
  have hset (n : BitVec 64) : Respects (Unchanged floatState) (modify (setCycles n) : M W Unit) :=
    .modify fun _ => rfl
  have hcount (op : Opcode) : Respects (Unchanged floatState) (countInstr env op) := by
    unfold countInstr
    infer_instance
  have hadvance (n : BitVec 64) : Respects (Unchanged floatState) (advanceCycles env n) := by
    unfold advanceCycles
    infer_instance
  unfold afterInstr performanceAndSyncUpdate
  cases b <;> (dsimp only; infer_instance)

theorem fetch_state {h h' : Hart W} (hf : fetch env h = .ok () h') :
    floatState h' = floatState h := by
  have hkeep := (respects_fetch : Respects (Unchanged floatState) (fetch env)).rel h
  rwa [hf] at hkeep

/-- What a step does to the floating-point state, its instruction does. -/
theorem runStep_state (hbreak : atBreakpoint t.hart = false) (hr : runStep env b t = .ok () t') :
    floatState t'.hart =
      floatState (final (execStep env b { t with hart := startInstr t.hart })).hart := by
  rcases runStep_ok hr with ⟨hat, -⟩ | ⟨-, t₁, htake, hafter⟩
  · rw [hbreak] at hat
    cases hat
  · have hkeep := (respects_afterInstr env b).rel t₁
    rw [hafter] at hkeep
    exact hkeep.trans (takeStep_rel (R := Unchanged floatState) htake)

end Step

/-! ### Instructions -/

section Instr

variable {env : Env W} {h h' : Hart W}

theorem fflags_of_state (hsame : floatState h' = floatState h) :
    fflags h' = fflags h :=
  congrArg Fcsr.fflags.get (congrArg (·.2.1) hsame)

theorem flags_of_state (hsame : floatState h' = floatState h) :
    h'.softfloatExceptionFlags = h.softfloatExceptionFlags :=
  congrArg (·.2.2) hsame

theorem grows_of_state (hflags : h.softfloatExceptionFlags = 0)
    (hsame : floatState h' = floatState h) :
    h'.softfloatExceptionFlags = 0 ∧ fflags h &&& fflags h' = fflags h := by
  rw [fflags_of_state hsame]
  exact ⟨(flags_of_state hsame).trans hflags, BitVec.and_self⟩

theorem fflags_of_collects {raised : Byte} (hcollects : Collects h h' raised) :
    fflags h' = fflags h ||| raised.setWidth 5 := by
  unfold fflags
  rw [hcollects.fcsr, BitField.get_put _ (by decide)]

/-- What a call of `set_csr_value` leaves. -/
theorem setCsrValue_grows (hdefault : DefaultKeepsFcsr env) (addr : CsrAddr) (v : Word) :
    (final (setCsrValue env addr v h)).softfloatExceptionFlags = h.softfloatExceptionFlags ∧
      (fflags (final (setCsrValue env addr v h)) = fflags h ∨
        csrName env addr = .fcsr ∨ csrName env addr = .fflags) := by
  by_cases haddr : NamesFcsr env addr
  · obtain ⟨fcsr, hset, hfrm⟩ := setCsrValue_fcsr haddr v h
    rw [hset]
    refine ⟨rfl, ?_⟩
    rcases haddr with hname | hname | hname
    · exact .inr (.inl hname)
    · exact .inr (.inr hname)
    · exact .inl (hfrm hname)
  · have hsame := (setCsrValue_keeps hdefault haddr v).rel h
    exact ⟨flags_of_state hsame, .inl (fflags_of_state hsame)⟩

variable (env) (b : Build) (i : Instruction) {op : Opcode} {t : TimedHart W}

/-- Loads and stores leave `fcsr` alone, and raise no flags. -/
theorem exec_access_state (haccess : IsFloatAccess op = true) :
    (final (exec env b i op t)).hart.softfloatExceptionFlags = t.hart.softfloatExceptionFlags ∧
      fflags (final (exec env b i op t)).hart = fflags t.hart ∧ raisedFlags env i t.hart op = 0 := by
  rcases isFloatAccess_cases haccess with hload | hstore
  · have hsame := exec_load_status env b i t hload
    refine ⟨congrArg (·.2.2) hsame, congrArg Fcsr.fflags.get (congrArg Prod.fst hsame), ?_⟩
    rcases hload with rfl | rfl <;> rfl
  · have hsame := floatState_of_context (exec_store_context env b i t hstore)
    refine ⟨flags_of_state hsame, fflags_of_state hsame, ?_⟩
    rcases hstore with rfl | rfl <;> rfl

/-- A floating-point instruction adds the flags its operations raise. -/
theorem exec_collects (hfloat : IsFloat op = true) (hflags : t.hart.softfloatExceptionFlags = 0) :
    (final (exec env b i op t)).hart.softfloatExceptionFlags = 0 ∧
      fflags (final (exec env b i op t)).hart = fflags t.hart ||| match exec env b i op t with
        | .ok _ _ => (raisedFlags env i t.hart op).setWidth 5
        | .error _ _ => 0 := by
  cases haccess : IsFloatAccess op with
  | true =>
    obtain ⟨hclear, hsame, hnone⟩ := exec_access_state env b i (t := t) haccess
    refine ⟨hclear.trans hflags, ?_⟩
    rw [hsame, hnone]
    cases exec env b i op t <;> exact BitVec.or_zero.symm
  | false =>
    have htracks := execFloat_tracks env i hfloat haccess
    rw [exec_float env b i hfloat]
    cases hr : execFloat env i op t.hart with
    | ok _ h' =>
      have hcollects := htracks.ok _ _ hflags hr
      rw [lift_of_ok hr]
      exact ⟨hcollects.exceptionFlags, fflags_of_collects hcollects⟩
    | error e h' =>
      rw [lift_of_error hr, htracks.error _ _ _ hr]
      exact ⟨hflags, BitVec.or_zero.symm⟩

/-- An instruction leaves no flags, and clears none in `fcsr` unless it writes it. -/
theorem exec_grows (hdefault : DefaultKeepsFcsr env) (hflags : t.hart.softfloatExceptionFlags = 0) :
    (final (exec env b i op t)).hart.softfloatExceptionFlags = 0 ∧
      (fflags t.hart &&& fflags (final (exec env b i op t)).hart = fflags t.hart ∨
        WritesCsr i op ∧ (csrName env i.csr = .fcsr ∨ csrName env i.csr = .fflags)) := by
  have hkept {h : Hart W} (hsame : floatState h = floatState t.hart) := grows_of_state hflags hsame
  by_cases hfloat : IsFloat op = true
  · obtain ⟨hclear, hcollected⟩ := exec_collects env b i hfloat hflags
    refine ⟨hclear, .inl ?_⟩
    rw [hcollected]
    refine BitVec.eq_of_getLsbD_eq fun k _ => ?_
    rw [BitVec.getLsbD_and, BitVec.getLsbD_or]
    cases (fflags t.hart).getLsbD k <;> rfl
  by_cases hreturn : IsReturn op
  · obtain ⟨hclear, hsame⟩ := hkept (exec_return_state env b i t hreturn)
    exact ⟨hclear, .inl hsame⟩
  by_cases hcsr : IsCsr op
  · rcases (closes_exec (R := Unchanged floatState) b env i hcsr).rel t with
      hsame | ⟨_, t', ⟨_, ⟨hwrites, v, rfl⟩, rfl⟩, hsame, heq⟩
    · obtain ⟨hclear, hsame⟩ := hkept hsame
      exact ⟨hclear, .inl hsame⟩
    · obtain ⟨hclear, hset⟩ := setCsrValue_grows (h := t'.hart) hdefault i.csr v
      rw [← final_lift, ← heq] at hclear hset
      refine ⟨hclear.trans (hkept hsame).1, hset.imp (fun hset => ?_) fun hname => ⟨hwrites, hname⟩⟩
      rw [hset]
      exact (hkept hsame).2
  · obtain ⟨hclear, hsame⟩ := hkept (floatState_of_context
      (exec_keeps_context env b i t (by simpa using hfloat) hcsr hreturn))
    exact ⟨hclear, .inl hsame⟩

end Instr

/-! ### Main result -/

section Run

variable {env b} {t t' : TimedHart W}

theorem fetched_state {h : Hart W} (hf : fetch env (startInstr t.hart) = .ok () h) :
    floatState h = floatState t.hart :=
  fetch_state (h := startInstr t.hart) hf

theorem execStep_state_of_error {e : Raise} {h : Hart W}
    (hf : fetch env (startInstr t.hart) = .error e h) :
    floatState (final (execStep env b { t with hart := startInstr t.hart })).hart =
      floatState t.hart := by
  have hfetch := (respects_fetch : Respects (Unchanged floatState) (fetch env)).rel
    (startInstr t.hart)
  rw [execStep_eq]
  rwa [hf] at hfetch ⊢

/-- One step leaves no flags, and clears none in `fcsr` unless it writes it. -/
theorem runStep_grows (hdefault : DefaultKeepsFcsr env)
    (hflags : t.hart.softfloatExceptionFlags = 0) (hr : runStep env b t = .ok () t') :
    t'.hart.softfloatExceptionFlags = 0 ∧
      (fflags t.hart &&& fflags t'.hart = fflags t.hart ∨
        ∃ h, fetch env (startInstr t.hart) = .ok () h ∧ WritesFflags env h) := by
  have hkept {h : Hart W} (hsame : floatState h = floatState t.hart) := grows_of_state hflags hsame
  cases hbreak : atBreakpoint t.hart with
  | true =>
    rcases runStep_ok hr with ⟨-, rfl⟩ | ⟨hno, -⟩
    · exact ⟨hflags, .inl BitVec.and_self⟩
    · rw [hbreak] at hno
      cases hno
  | false =>
    have hstate := runStep_state hbreak hr
    cases hf : fetch env (startInstr t.hart) with
    | error e h =>
      obtain ⟨hclear, hsame⟩ := hkept (hstate.trans (execStep_state_of_error hf))
      exact ⟨hclear, .inl hsame⟩
    | ok _ h =>
      rw [execStep_of_fetch env b hf] at hstate
      have hfetched : floatState h = floatState t.hart := fetched_state hf
      obtain ⟨hclear, hgrows⟩ := exec_grows env b h.instr (t := { t with hart := h }) hdefault
        ((flags_of_state hfetched).trans hflags)
      rw [← flags_of_state hstate] at hclear
      rw [← fflags_of_state hstate, fflags_of_state hfetched] at hgrows
      exact ⟨hclear, hgrows.imp_right fun hwrites => ⟨h, rfl, hwrites⟩⟩

theorem flagsKept_of_clear (hdefault : DefaultKeepsFcsr env)
    (hflags : t.hart.softfloatExceptionFlags = 0) : FlagsKept env b t where
  clear := hflags
  asserts h hf := by
    have hfetched : floatState h = floatState t.hart := fetched_state hf
    have hassert : assert (fun h => decide (h.softfloatExceptionFlags = 0)) h = .ok () h := by
      rw [assert_eq, if_pos (decide_eq_true ((flags_of_state hfetched).trans hflags))]
    unfold fpPrepareInstr
    exact bind_of_ok hassert
  collects h t' hbreak hr hf hfloat := by
    have hfetched : floatState h = floatState t.hart := fetched_state hf
    have hstate := runStep_state hbreak hr
    rw [execStep_of_fetch env b hf] at hstate
    rw [fflags_of_state hstate, ← fflags_of_state hfetched]
    exact (exec_collects env b h.instr hfloat ((flags_of_state hfetched).trans hflags)).2
  grows t' hr := (runStep_grows hdefault hflags hr).2

/-- No flag is lost or left for another instruction, in all the states of a run from one in which
SoftFloat has none left. -/
theorem flagsKept_of_run (hdefault : DefaultKeepsFcsr env)
    (hflags : t.hart.softfloatExceptionFlags = 0) (hrun : Run env b (fun _ => True) t t') :
    FlagsKept env b t' := by
  refine flagsKept_of_clear hdefault ?_
  induction hrun with
  | refl => exact hflags
  | tail _ hstep ih => exact (runStep_grows hdefault ih hstep.2).1

end Run

/-- A platform whose only floating-point instruction is the division of zero by zero. -/
def Env.division : Env BareMemory :=
  { Env.bare with
    decodeNormal := fun _ => .fdivS
    f32 := { SoftFloat.none 32 with div := fun _ _ _ => (0x7FC00000, 0x10) } }

/-- A hart in machine mode, with the extensions F and U, on a memory of `FDIV.S f1, f2, f3`. -/
def divisionHart : TimedHart BareMemory where
  hart := .reset machineMode 0x00100020 0x00002000 fun _ => 0x183100D3
  pipeline := .empty 0

theorem division_flagsKept :
    FlagsKept Env.division .plain (final (runStep Env.division .plain divisionHart)) :=
  flagsKept_of_run (t := divisionHart) (fun _ _ _ _ => rfl) rfl (.single ⟨trivial, rfl⟩)

end Vcil.Iss
