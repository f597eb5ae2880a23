import Vcil.Iss.Effects

/-!
# What a floating-point instruction does to its context

The context is `fcsr`, the two fields of `mstatus` that track it, and the flags of SoftFloat.

* `binaryFlags`, …, `raisedFlags`: the flags that the SoftFloat operations of an instruction raise;
* `Collects h h' raised`: the flags have been collected in `fcsr`, and the context is marked dirty;
* `Tracks m raised`: what all the instructions but the loads and stores do;
* `execFloat_tracks`: they do.
-/

namespace Vcil.Iss

open Fallible

variable {W : Type} {n : ℕ}

/-! ### Raised flags -/

section Flags

variable (u : SoftFloat n) (i : Instruction) (h : Hart W)

/-- The value of a register in the format. -/
def operand (r : RegIdx) : BitVec n := u.ofReg (h.fpRegs r)

/-- The flags of an operation on `rs1` and `rs2`. -/
def binaryFlags (f : BitVec 3 → BitVec n → BitVec n → BitVec n × Byte) : Byte :=
  (f (roundingMode h) (operand u h i.rs1) (operand u h i.rs2)).2

/-- The flags of a square root. -/
def sqrtFlags : Byte := (u.sqrt (roundingMode h) (operand u h i.rs1)).2

/-- The flags of a fused multiplication and addition, with the signs that `f1` and `f3` change. -/
def fusedFlags (f1 f3 : BitVec n → BitVec n) : Byte :=
  (u.mulAdd (roundingMode h) (f1 (operand u h i.rs1)) (operand u h i.rs2)
    (f3 (operand u h i.rs3))).2

/-- Operands that are not in order are compared once more. -/
def beforeFlags (a b : BitVec n) : Byte :=
  (u.ltQuiet a b).2 ||| if (u.ltQuiet a b).1 then 0 else (u.eq a b).2

/-- The flags of a minimum, which compares in this order. -/
def minFlags : Byte := beforeFlags u (operand u h i.rs1) (operand u h i.rs2)

/-- The flags of a maximum, which compares the other way round. -/
def maxFlags : Byte := beforeFlags u (operand u h i.rs2) (operand u h i.rs1)

/-- The flags of a conversion to an integer. -/
def toIntFlags (f : BitVec n → BitVec 3 → Bool → Word × Byte) : Byte :=
  (f (operand u h i.rs1) (roundingMode h) true).2

/-- The flags of a conversion from an integer. -/
def ofIntFlags (f : BitVec 3 → Word → BitVec n × Byte) : Byte :=
  (f (roundingMode h) (h.regs i.rs1)).2

/-- The flags of a conversion from another format. -/
def convertFlags {m : ℕ} (v : SoftFloat m) (f : BitVec 3 → BitVec m → BitVec n × Byte) : Byte :=
  (f (roundingMode h) (operand v h i.rs1)).2

/-- The flags of a comparison. -/
def compareFlags (f : BitVec n → BitVec n → Bool × Byte) : Byte :=
  (f (operand u h i.rs1) (operand u h i.rs2)).2

end Flags

/-- The flags raised by the operations of an instruction.  Loads, stores, moves, sign injections and
classifications raise none. -/
def raisedFlags (env : Env W) (i : Instruction) (h : Hart W) : Opcode → Byte
  | .faddS => binaryFlags env.f32 i h env.f32.add
  | .fsubS => binaryFlags env.f32 i h env.f32.sub
  | .fmulS => binaryFlags env.f32 i h env.f32.mul
  | .fdivS => binaryFlags env.f32 i h env.f32.div
  | .fsqrtS => sqrtFlags env.f32 i h
  | .fminS => minFlags env.f32 i h
  | .fmaxS => maxFlags env.f32 i h
  | .fmaddS => fusedFlags env.f32 i h id id
  | .fmsubS => fusedFlags env.f32 i h id env.f32.neg
  | .fnmaddS => fusedFlags env.f32 i h env.f32.neg env.f32.neg
  | .fnmsubS => fusedFlags env.f32 i h env.f32.neg id
  | .fcvtWS => toIntFlags env.f32 i h env.f32.toI32
  | .fcvtWuS => toIntFlags env.f32 i h env.f32.toUi32
  | .fcvtSW => ofIntFlags i h env.f32.ofI32
  | .fcvtSWu => ofIntFlags i h env.f32.ofUi32
  | .feqS => compareFlags env.f32 i h env.f32.eq
  | .fltS => compareFlags env.f32 i h env.f32.lt
  | .fleS => compareFlags env.f32 i h env.f32.le
  | .faddD => binaryFlags env.f64 i h env.f64.add
  | .fsubD => binaryFlags env.f64 i h env.f64.sub
  | .fmulD => binaryFlags env.f64 i h env.f64.mul
  | .fdivD => binaryFlags env.f64 i h env.f64.div
  | .fsqrtD => sqrtFlags env.f64 i h
  | .fminD => minFlags env.f64 i h
  | .fmaxD => maxFlags env.f64 i h
  | .fmaddD => fusedFlags env.f64 i h id id
  | .fmsubD => fusedFlags env.f64 i h id env.f64.neg
  | .fnmaddD => fusedFlags env.f64 i h env.f64.neg env.f64.neg
  | .fnmsubD => fusedFlags env.f64 i h env.f64.neg id
  | .fcvtSD => convertFlags i h env.f64 env.f64ToF32
  | .fcvtDS => convertFlags i h env.f32 env.f32ToF64
  | .feqD => compareFlags env.f64 i h env.f64.eq
  | .fltD => compareFlags env.f64 i h env.f64.lt
  | .fleD => compareFlags env.f64 i h env.f64.le
  | .fcvtWD => toIntFlags env.f64 i h env.f64.toI32
  | .fcvtWuD => toIntFlags env.f64 i h env.f64.toUi32
  | .fcvtDW => ofIntFlags i h env.f64.ofI32
  | .fcvtDWu => ofIntFlags i h env.f64.ofUi32
  | _ => 0

/-! ### The context -/

/-- `mstatus` says that the floating-point state has changed. -/
structure Dirty (h : Hart W) : Prop where
  fs : Mstatus.fs.get h.csrs.mstatus = fsDirty
  sd : Mstatus.sd.get h.csrs.mstatus = 1#1

/-- The registers and `fcsr` are the same. -/
structure SameFloat (h h' : Hart W) : Prop where
  fpRegs : h'.fpRegs = h.fpRegs
  fcsr : h'.csrs.fcsr = h.csrs.fcsr

/-- The flags an instruction raises are collected, and its changes make the context dirty. -/
structure Collects (h h' : Hart W) (raised : Byte) : Prop where
  exceptionFlags : h'.softfloatExceptionFlags = 0
  fcsr : h'.csrs.fcsr =
    Fcsr.fflags.put (Fcsr.fflags.get h.csrs.fcsr ||| raised.setWidth 5) h.csrs.fcsr
  dirty : SameFloat h h' ∨ Dirty h'

/-- What a floating-point instruction does to its context. -/
structure Tracks (m : M W Unit) (raised : Hart W → Byte) : Prop where
  flagged : ∀ h, h.softfloatExceptionFlags ≠ 0 →
    m h = raiseIllegalInstruction h ∨ m h = .error .assertion h
  off : ∀ h, h.softfloatExceptionFlags = 0 → Mstatus.fs.get h.csrs.mstatus = fsOff →
    m h = raiseIllegalInstruction h
  ok : ∀ h h', h.softfloatExceptionFlags = 0 → m h = .ok () h' → Collects h h' (raised h)
  error : ∀ h e h', m h = .error e h' → h' = h

/-! ### Prologue -/

section Prologue

variable {m : M W Unit} {raised : Hart W → Byte} {x : IsaExt}

/-- From `h`, the computation returns with the flags collected. -/
def Returns (m : M W Unit) (h : Hart W) (raised : Byte) : Prop :=
  ∃ h', m h = .ok () h' ∧ Collects h h' raised

theorem raiseIllegalInstruction_eq (h : Hart W) :
    (raiseIllegalInstruction : M W Unit) h =
      .error (.trap ⟨excIllegalInstr, h.instr.data.setWidth 64⟩) h := rfl

/-- The checks all these instructions begin with. -/
theorem prologue_eq {k : M W Unit} {h : Hart W} (hflags : h.softfloatExceptionFlags = 0) :
    (do requireIsa x; fpPrepareInstr; k) h =
      if hasExt h.csrs.misa x ∧ Mstatus.fs.get h.csrs.mstatus ≠ fsOff then k h
      else raiseIllegalInstruction h := by
  have hassert : assert (fun h => decide (h.softfloatExceptionFlags = 0)) h = .ok () h := by
    rw [assert_eq, if_pos (decide_eq_true hflags)]
  unfold requireIsa fpPrepareInstr fpRequireNotOff
  rw [illegalIf_bind, bind_assoc, bind_of_ok hassert, illegalIf_bind]
  cases hasExt h.csrs.misa x with
  | false => rfl
  | true =>
    by_cases hoff : Mstatus.fs.get h.csrs.mstatus = fsOff
    · simp [hoff, raiseIllegalInstruction_eq]
    · simp [hoff]

theorem tracks_of_body
    (hbody : ∀ h : Hart W, h.softfloatExceptionFlags = 0 →
      m h = raiseIllegalInstruction h ∨ Returns m h (raised h)) :
    Tracks (do requireIsa x; fpPrepareInstr; m) raised := by
  have hon (h : Hart W) (hflags : h.softfloatExceptionFlags = 0) :
      (do requireIsa x; fpPrepareInstr; m) h = raiseIllegalInstruction h ∨
        Returns (do requireIsa x; fpPrepareInstr; m) h (raised h) := by
    unfold Returns
    rw [prologue_eq hflags]
    split_ifs
    · exact hbody h hflags
    · exact .inl rfl
  have hflagged (h : Hart W) (hflags : h.softfloatExceptionFlags ≠ 0) :
      (do requireIsa x; fpPrepareInstr; m) h = raiseIllegalInstruction h ∨
        (do requireIsa x; fpPrepareInstr; m) h = .error .assertion h := by
    have hassert : assert (fun h => decide (h.softfloatExceptionFlags = 0)) h =
        .error .assertion h := by
      rw [assert_eq, if_neg (by simpa using hflags)]
    unfold requireIsa fpPrepareInstr
    rw [illegalIf_bind, bind_assoc, bind_of_error hassert]
    cases hasExt h.csrs.misa x with
    | false => exact .inl rfl
    | true => exact .inr rfl
  refine ⟨hflagged, fun h hflags hoff => ?_, fun h h' hflags hr => ?_, fun h e h' hr => ?_⟩
  · rw [prologue_eq hflags, if_neg fun hchecked => hchecked.2 hoff]
  · rcases hon h hflags with hillegal | ⟨_, hreturns, hcollects⟩
    · rw [hillegal] at hr
      cases hr
    · rw [hreturns] at hr
      cases hr
      exact hcollects
  · by_cases hflags : h.softfloatExceptionFlags = 0
    · rcases hon h hflags with hillegal | ⟨_, hreturns, -⟩
      · rw [hillegal] at hr
        cases hr
        rfl
      · rw [hreturns] at hr
        cases hr
    · rcases hflagged h hflags with hillegal | hassert
      · rw [hillegal] at hr
        cases hr
        rfl
      · rw [hassert] at hr
        cases hr
        rfl

/-- … and those that round. -/
theorem tracks_of_rounded
    (hbody : ∀ h : Hart W, h.softfloatExceptionFlags = 0 →
      Returns m { h with softfloatRoundingMode := roundingMode h } (raised h)) :
    Tracks (do requireIsa x; fpPrepareInstr; fpSetupRm; m) raised := by
  refine tracks_of_body fun h hflags => ?_
  unfold fpSetupRm Returns
  rw [bind_assoc, illegalIf_bind]
  split_ifs
  · exact .inl rfl
  · obtain ⟨h', hr, hcollects⟩ := hbody h hflags
    refine .inr ⟨h', hr, hcollects.exceptionFlags, hcollects.fcsr, ?_⟩
    rcases hcollects.dirty with hsame | hdirty
    · exact .inl ⟨hsame.fpRegs, hsame.fcsr⟩
    · exact .inr hdirty

end Prologue

/-! ### Epilogues -/

section Epilogue

variable {h₀ h : Hart W} {raised : Byte}

theorem dirty_put (mstatus : Word) :
    Mstatus.fs.get (Mstatus.fs.put fsDirty (Mstatus.sd.put 1#1 mstatus)) = fsDirty ∧
      Mstatus.sd.get (Mstatus.fs.put fsDirty (Mstatus.sd.put 1#1 mstatus)) = 1#1 := by
  constructor
  · exact Mstatus.fs.get_put (by decide) _ _
  · rw [Mstatus.fs.get_put_of_apart (by decide) (by decide), Mstatus.sd.get_put (by decide)]

/-- Without flags nothing is collected. -/
theorem put_none (fcsr : Word) :
    Fcsr.fflags.put (Fcsr.fflags.get fcsr ||| (0 : Byte).setWidth 5) fcsr = fcsr := by
  rw [show (0 : Byte).setWidth 5 = 0#5 from rfl, BitVec.or_zero, BitField.put_get]

/-- `fp_set_dirty`. -/
theorem returns_setDirty (hfcsr : h.csrs.fcsr = h₀.csrs.fcsr)
    (hflags : h.softfloatExceptionFlags = 0) :
    ∃ h', (fpSetDirty : M W Unit) h = .ok () h' ∧ Collects h₀ h' 0 := by
  refine ⟨_, rfl, hflags, ?_, .inr ⟨(dirty_put _).1, (dirty_put _).2⟩⟩
  rw [put_none]
  exact hfcsr

theorem fpUpdateExceptionFlags_eq (h : Hart W) :
    fpUpdateExceptionFlags h =
      (if h.softfloatExceptionFlags ≠ 0 then do
        fpSetDirty
        setCsrs fun c => { c with
          fcsr := Fcsr.fflags.put
            (Fcsr.fflags.get c.fcsr ||| h.softfloatExceptionFlags.setWidth 5) c.fcsr }
        setExceptionFlags 0
      else pure () : M W Unit) h := rfl

/-- `fp_update_exception_flags`. -/
theorem returns_update (hfcsr : h.csrs.fcsr = h₀.csrs.fcsr)
    (hdirty : h.fpRegs = h₀.fpRegs ∨ Dirty h) (hflags : h.softfloatExceptionFlags = raised) :
    ∃ h', (fpUpdateExceptionFlags : M W Unit) h = .ok () h' ∧ Collects h₀ h' raised := by
  subst hflags
  rw [fpUpdateExceptionFlags_eq]
  by_cases hnone : h.softfloatExceptionFlags = 0
  · rw [if_neg (not_not.2 hnone)]
    refine ⟨h, rfl, hnone, ?_, hdirty.imp_left fun hregs => ⟨hregs, hfcsr⟩⟩
    rw [hnone, put_none, hfcsr]
  · rw [if_pos hnone]
    refine ⟨_, rfl, rfl, ?_, .inr ⟨(dirty_put _).1, (dirty_put _).2⟩⟩
    rw [← hfcsr]

/-- `fp_finish_instr`. -/
theorem returns_finish (hfcsr : h.csrs.fcsr = h₀.csrs.fcsr)
    (hflags : h.softfloatExceptionFlags = raised) :
    ∃ h', (fpFinishInstr : M W Unit) h = .ok () h' ∧ Collects h₀ h' raised := by
  have hset : (fpSetDirty : M W Unit) h = .ok () _ := rfl
  unfold fpFinishInstr
  rw [bind_of_ok hset]
  exact returns_update hfcsr (.inr ⟨(dirty_put _).1, (dirty_put _).2⟩) hflags

end Epilogue

/-! ### Families -/

section Families

variable (x : IsaExt) (u : SoftFloat n) (i : Instruction)

theorem collected {h : Hart W} (hflags : h.softfloatExceptionFlags = 0) (raised : Byte) :
    h.softfloatExceptionFlags ||| raised = raised := by
  rw [hflags]
  exact BitVec.zero_or

theorem fpBinary_tracks (f : BitVec 3 → BitVec n → BitVec n → BitVec n × Byte) :
    Tracks (fpBinary x u i f : M W Unit) fun h => binaryFlags u i h f :=
  tracks_of_rounded fun _ hflags => returns_finish rfl (collected hflags _)

theorem fpSqrt_tracks : Tracks (fpSqrt x u i : M W Unit) fun h => sqrtFlags u i h :=
  tracks_of_rounded fun _ hflags => returns_finish rfl (collected hflags _)

theorem fpFused_tracks (f1 f3 : BitVec n → BitVec n) :
    Tracks (fpFused x u i f1 f3 : M W Unit) fun h => fusedFlags u i h f1 f3 :=
  tracks_of_rounded fun _ hflags => returns_finish rfl (collected hflags _)

theorem fpToInt_tracks (f : BitVec n → BitVec 3 → Bool → Word × Byte) :
    Tracks (fpToInt x u i f : M W Unit) fun h => toIntFlags u i h f :=
  tracks_of_rounded fun _ hflags => returns_finish rfl (collected hflags _)

theorem fpOfInt_tracks (f : BitVec 3 → Word → BitVec n × Byte) :
    Tracks (fpOfInt x u i f : M W Unit) fun h => ofIntFlags i h f :=
  tracks_of_rounded fun _ hflags => returns_finish rfl (collected hflags _)

theorem fpConvert_tracks {m : ℕ} (v : SoftFloat m) (f : BitVec 3 → BitVec m → BitVec n × Byte) :
    Tracks (fpConvert x u i v f : M W Unit) fun h => convertFlags i h v f :=
  tracks_of_rounded fun _ hflags => returns_finish rfl (collected hflags _)

theorem fpSign_tracks (f : BitVec n → BitVec n → BitVec n) :
    Tracks (fpSign x u i f : M W Unit) fun _ => 0 :=
  tracks_of_body fun _ hflags => .inr (returns_setDirty rfl hflags)

theorem fpCompare_tracks (f : BitVec n → BitVec n → Bool × Byte) :
    Tracks (fpCompare x u i f : M W Unit) fun h => compareFlags u i h f :=
  tracks_of_body fun _ hflags => .inr (returns_update rfl (.inl rfl) (collected hflags _))

theorem fpClass_tracks : Tracks (fpClass x u i : M W Unit) fun _ => 0 :=
  tracks_of_body fun h hflags =>
    .inr ⟨_, rfl, hflags, (put_none h.csrs.fcsr).symm, .inl ⟨rfl, rfl⟩⟩

theorem fmvWX_tracks (env : Env W) : Tracks (fmvWX env i) fun _ => 0 :=
  tracks_of_body fun _ hflags => .inr (returns_setDirty rfl hflags)

theorem fmvXW_tracks (env : Env W) : Tracks (fmvXW env i) fun _ => 0 :=
  tracks_of_body fun h hflags =>
    .inr ⟨_, rfl, hflags, (put_none h.csrs.fcsr).symm, .inl ⟨rfl, rfl⟩⟩

/-- The comparison of a minimum or maximum. -/
theorem fpBefore_eq (a b : BitVec n) (h : Hart W) :
    ∃ before, fpBefore u a b h = .ok before { h with
      softfloatExceptionFlags := h.softfloatExceptionFlags ||| beforeFlags u a b } := by
  have hlt : (softfloat fun _ => u.ltQuiet a b : M W Bool) h = .ok (u.ltQuiet a b).1 { h with
    softfloatExceptionFlags := h.softfloatExceptionFlags ||| (u.ltQuiet a b).2 } := rfl
  unfold fpBefore beforeFlags
  rw [bind_of_ok hlt]
  cases (u.ltQuiet a b).1 with
  | true => exact ⟨true, by simp; rfl⟩
  | false => exact ⟨_, by simp [← BitVec.or_assoc]; rfl⟩

theorem fpSelect_tracks {first : BitVec n → BitVec n → M W Bool} {flags : BitVec n → BitVec n → Byte}
    (hfirst : ∀ a b h, ∃ before, first a b h = .ok before { h with
      softfloatExceptionFlags := h.softfloatExceptionFlags ||| flags a b }) :
    Tracks (fpSelect x u i first)
      fun h => flags (operand u h i.rs1) (operand u h i.rs2) := by
  refine tracks_of_body fun h hflags => .inr ?_
  obtain ⟨before, heq⟩ := hfirst (operand u h i.rs1) (operand u h i.rs2) h
  have hbody : ∃ h', (first (operand u h i.rs1) (operand u h i.rs2) >>= fun rs1First => do
      fpWrite u i.rd
        (if u.isNaN (operand u h i.rs1) && u.isNaN (operand u h i.rs2) then u.defaultNaN
        else if rs1First then operand u h i.rs1 else operand u h i.rs2)
      fpFinishInstr) h = .ok () h' ∧
        Collects h h' (flags (operand u h i.rs1) (operand u h i.rs2)) := by
    rw [bind_of_ok heq]
    exact returns_finish rfl (collected hflags _)
  exact hbody

theorem fpMin_tracks :
    Tracks (fpSelect x u i fun a b => fpBefore u a b : M W Unit) fun h => minFlags u i h :=
  fpSelect_tracks x u i fun a b => fpBefore_eq u a b

theorem fpMax_tracks :
    Tracks (fpSelect x u i fun a b => fpBefore u b a : M W Unit) fun h => maxFlags u i h :=
  fpSelect_tracks x u i fun a b => fpBefore_eq u b a

end Families

/-! ### The instructions -/

/-- The loads and stores of floating-point registers. -/
def IsFloatAccess : Opcode → Bool
  | .flw | .fsw | .fld | .fsd => true
  | _ => false

theorem isFloatAccess_cases {op : Opcode} (haccess : IsFloatAccess op = true) :
    (op = .flw ∨ op = .fld) ∨ op = .fsw ∨ op = .fsd := by
  cases op <;> simp_all [IsFloatAccess]

/-- A floating-point instruction other than a load or store tracks its context. -/
theorem execFloat_tracks (env : Env W) (i : Instruction) {op : Opcode} (hop : IsFloat op = true)
    (haccess : IsFloatAccess op = false) :
    Tracks (execFloat env i op) fun h => raisedFlags env i h op := by
  cases op <;> first
    | exact absurd hop (by decide)
    | exact absurd haccess (by decide)
    | dsimp only [execFloat, raisedFlags]
  -- what is left is one of the families
  all_goals with_reducible first
    | exact fpBinary_tracks _ _ _ _
    | exact fpSqrt_tracks _ _ _
    | exact fpFused_tracks _ _ _ _ _
    | exact fpToInt_tracks _ _ _ _
    | exact fpOfInt_tracks _ _ _ _
    | exact fpConvert_tracks _ _ _ _ _
    | exact fpSign_tracks _ _ _ _
    | exact fpCompare_tracks _ _ _ _
    | exact fpClass_tracks _ _ _
    | exact fmvWX_tracks _ _
    | exact fmvXW_tracks _ _
    | exact fpMin_tracks _ _ _
    | exact fpMax_tracks _ _ _

theorem exec_float (env : Env W) (b : Build) (i : Instruction) {op : Opcode}
    (hop : IsFloat op = true) : exec env b i op = lift (execFloat env i op) := by
  cases op <;> first
    | exact absurd hop (by decide)
    | cases b <;> rfl

/-! ### Other instructions -/

/-- What the floating-point instructions change. -/
def floatContext (h : Hart W) : (RegIdx → BitVec 64) × Word × Word × Byte :=
  (h.fpRegs, h.csrs.fcsr, h.csrs.mstatus, h.softfloatExceptionFlags)

/-- The context apart from the registers. -/
def floatStatus (h : Hart W) : Word × Word × Byte := (floatContext h).2

/-- The context apart from `mstatus`. -/
def floatState (h : Hart W) : (RegIdx → BitVec 64) × Word × Byte :=
  (h.fpRegs, h.csrs.fcsr, h.softfloatExceptionFlags)

theorem sameFloat_of_state {h h' : Hart W} (hsame : floatState h' = floatState h) :
    SameFloat h h' :=
  ⟨congrArg Prod.fst hsame, congrArg (·.2.1) hsame⟩

theorem floatState_of_context {h h' : Hart W} (hsame : floatContext h' = floatContext h) :
    floatState h' = floatState h :=
  congrArg (fun c => (c.1, c.2.1, c.2.2.2)) hsame

instance : IntegerFrame (Unchanged (W := W) floatContext) where
  regs _ _ := rfl
  pc _ _ := rfl
  status _ _ := rfl
  shallExit _ _ := rfl
  niceUart _ _ op := by cases op <;> rfl
  world _ _ := rfl

instance : CounterFrame (Unchanged (W := W) floatContext) where
  time _ _ := rfl
  cycle _ _ := rfl

instance : WindowFrame (Unchanged (W := W) floatContext) where
  lrScCounter _ _ := rfl

instance : IntegerFrame (Unchanged (W := W) floatStatus) where
  regs _ _ := rfl
  pc _ _ := rfl
  status _ _ := rfl
  shallExit _ _ := rfl
  niceUart _ _ op := by cases op <;> rfl
  world _ _ := rfl

instance : IntegerFrame (Unchanged (W := W) floatState) where
  regs _ _ := rfl
  pc _ _ := rfl
  status _ _ := rfl
  shallExit _ _ := rfl
  niceUart _ _ op := by cases op <;> rfl
  world _ _ := rfl

section Others

variable (env : Env W) (b : Build) (i : Instruction) {op : Opcode} (t : TimedHart W)

/-- An instruction of another kind does not touch the context. -/
theorem exec_keeps_context (hfloat : IsFloat op = false) (hcsr : ¬IsCsr op) (hreturn : ¬IsReturn op) :
    floatContext (final (exec env b i op t)).hart = floatContext t.hart :=
  (respects_exec_kind (R := Unchanged floatContext) env i b hreturn (fun h => absurd h hcsr)
    (fun h => absurd h (by simp [hfloat])) fun _ => inferInstance).rel t

/-- Nor do stores. -/
theorem exec_store_context (hop : op = .fsw ∨ op = .fsd) :
    floatContext (final (exec env b i op t)).hart = floatContext t.hart := by
  have hread : Respects (Unchanged floatContext) (fpReg env.f64 i.rs2 : M W _) := by
    unfold fpReg
    infer_instance
  rcases hop with rfl | rfl <;> rw [exec_float env b i rfl, final_lift]
  · have hstore : Respects (Unchanged floatContext) (fsw env i) := by
      unfold fsw
      infer_instance
    exact hstore.rel t.hart
  · have hstore : Respects (Unchanged floatContext) (fsd env i) := by
      unfold fsd
      infer_instance
    exact hstore.rel t.hart

/-- Loads only change a register. -/
theorem exec_load_status (hop : op = .flw ∨ op = .fld) :
    floatStatus (final (exec env b i op t)).hart = floatStatus t.hart := by
  have hwrite {n : ℕ} (u : SoftFloat n) (r : RegIdx) (v : BitVec n) :
      Respects (Unchanged floatStatus) (fpWrite u r v : M W Unit) := .modify fun _ => rfl
  rcases hop with rfl | rfl <;> rw [exec_float env b i rfl, final_lift]
  · have hload : Respects (Unchanged floatStatus) (flw env i) := by
      unfold flw
      infer_instance
    exact hload.rel t.hart
  · have hload : Respects (Unchanged floatStatus) (fld env i) := by
      unfold fld
      infer_instance
    exact hload.rel t.hart

/-- Returns only change `mstatus`. -/
theorem exec_return_state (hop : IsReturn op) :
    floatState (final (exec env b i op t)).hart = floatState t.hart := by
  rw [exec_return env b i hop, final_lift]
  rcases return_cases env i hop t.hart with ⟨m, -, hleave⟩ | hillegal
  · rw [hleave]
    cases m <;> rfl
  · rw [hillegal]
    rfl

end Others

/-! ### CSR writes -/

/-- `default_write32` stores in the register of its address. -/
def DefaultKeepsFcsr (env : Env W) : Prop :=
  ∀ c addr v, isFcsr addr = false → (env.defaultWrite32 c addr v).fcsr = c.fcsr

/-- The addresses of `fcsr` and its fields. -/
def NamesFcsr (env : Env W) (addr : CsrAddr) : Prop :=
  csrName env addr = .fcsr ∨ csrName env addr = .fflags ∨ csrName env addr = .frm

theorem isFcsr_of_not_names {env : Env W} {addr : CsrAddr} (haddr : ¬NamesFcsr env addr) :
    isFcsr addr = false := by
  by_contra hfcsr
  simp only [isFcsr, Bool.or_eq_false_iff, decide_eq_false_iff_not, not_and_or, not_not] at hfcsr
  rcases hfcsr with (rfl | rfl) | rfl
  · exact haddr (.inr (.inl rfl))
  · exact haddr (.inr (.inr rfl))
  · exact haddr (.inl rfl)

/-- The writes do not touch the registers, and only those to `fcsr` and its fields touch `fcsr`. -/
theorem setCsrValue_keeps {env : Env W} (hdefault : DefaultKeepsFcsr env) {addr : CsrAddr}
    (haddr : ¬NamesFcsr env addr) (v : Word) :
    Respects (Unchanged floatState) (setCsrValue env addr v) := by
  have hkeeps {f : Csrs → Csrs} (hf : ∀ c, (f c).fcsr = c.fcsr) :
      Respects (Unchanged floatState) (setCsrs f : M W Unit) := by
    refine .modify fun h => ?_
    show (_, (f h.csrs).fcsr, _) = _
    rw [hf]
    rfl
  have hwrite := hkeeps fun c => hdefault c addr v (isFcsr_of_not_names haddr)
  have hsatp := hkeeps (f := fun c => { c with satp := writeMasked c.satp v env.masks.satp })
    fun _ => rfl
  unfold setCsrValue
  cases hname : csrName env addr
  case fcsr => exact absurd (.inl hname) haddr
  case fflags => exact absurd (.inr (.inl hname)) haddr
  case frm => exact absurd (.inr (.inr hname)) haddr
  all_goals first
    | infer_instance
    | exact hkeeps fun _ => rfl

/-- Those only touch `fcsr`. -/
theorem setCsrValue_fcsr {env : Env W} {addr : CsrAddr} (haddr : NamesFcsr env addr) (v : Word)
    (h : Hart W) : ∃ fcsr, setCsrValue env addr v h =
      .ok () { h with csrs := { h.csrs with fcsr := fcsr } } ∧
        (csrName env addr = .frm → Fcsr.fflags.get fcsr = Fcsr.fflags.get h.csrs.fcsr) := by
  unfold setCsrValue
  rcases haddr with hname | hname | hname <;> rw [hname]
  · exact ⟨_, rfl, fun hfrm => by cases hfrm⟩
  · exact ⟨_, rfl, fun hfrm => by cases hfrm⟩
  · exact ⟨_, rfl, fun _ => Fcsr.frm.get_put_of_apart (by decide) (by decide) _ _⟩

end Vcil.Iss
