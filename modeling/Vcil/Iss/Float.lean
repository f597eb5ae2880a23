import Vcil.Iss.State

/-!
# The floating-point instructions

The `F` and `D` cases of `exec_step`.  The two extensions differ in the format, a `SoftFloat`, and
the bit of `misa`.

* `fpPrepareInstr`, `fpSetupRm`, `fpFinishInstr`: what the cases share;
* `fpBinary`, `fpFused`, …: the families of cases;
* `execFloat`: the cases.
-/

namespace Vcil.Iss

/-- `FRM_RMM`, the first of the values that `fp_setup_rm` refuses. -/
def frmRmm : BitVec 3 := 4
/-- `FRM_DYN`: the mode is that of `fcsr`. -/
def frmDyn : BitVec 3 := 7

section

variable {W : Type}

/-- `fp_set_dirty()`. -/
def fpSetDirty : M W Unit := do
  setMstatus Mstatus.sd 1#1
  setMstatus Mstatus.fs fsDirty

/-- `softfloat_exceptionFlags = flags`. -/
def setExceptionFlags (flags : Byte) : M W Unit :=
  modify fun h => { h with softfloatExceptionFlags := flags }

/-- `fp_update_exception_flags()`: what SoftFloat has raised is collected in `fcsr`. -/
def fpUpdateExceptionFlags : M W Unit := do
  let h ← get
  if h.softfloatExceptionFlags ≠ 0 then do
    fpSetDirty
    setCsrs fun c =>
      let fflags := Fcsr.fflags.get c.fcsr ||| h.softfloatExceptionFlags.setWidth Fcsr.fflags.len
      { c with fcsr := Fcsr.fflags.put fflags c.fcsr }
    setExceptionFlags 0
  else pure ()

/-- `fp_finish_instr()`. -/
def fpFinishInstr : M W Unit := do
  fpSetDirty
  fpUpdateExceptionFlags

/-- `fp_require_not_off()`. -/
def fpRequireNotOff : M W Unit :=
  illegalIf fun h => Mstatus.fs.get h.csrs.mstatus == fsOff

/-- `fp_prepare_instr()`. -/
def fpPrepareInstr : M W Unit := do
  assert fun h => h.softfloatExceptionFlags = 0
  fpRequireNotOff

/-- The rounding mode of the instruction. -/
def roundingMode (h : Hart W) : BitVec 3 :=
  if h.instr.frm = frmDyn then Fcsr.frm.get h.csrs.fcsr else h.instr.frm

/-- `fp_setup_rm()`. -/
def fpSetupRm : M W Unit := do
  illegalIf fun h => frmRmm ≤ roundingMode h
  modify fun h => { h with softfloatRoundingMode := roundingMode h }

/-- A SoftFloat operation, in the current rounding mode; the flags it raises are collected. -/
def softfloat {α : Type} (f : BitVec 3 → α × Byte) : M W α := do
  let h ← get
  setExceptionFlags (h.softfloatExceptionFlags ||| (f h.softfloatRoundingMode).2)
  return (f h.softfloatRoundingMode).1

variable {n : ℕ}

/-- `fp_regs.f32(r)`, `fp_regs.f64(r)`. -/
def fpReg (u : SoftFloat n) (r : RegIdx) : M W (BitVec n) := do
  return u.ofReg ((← get).fpRegs r)

/-- `fp_regs.write(r, v)`. -/
def fpWrite (u : SoftFloat n) (r : RegIdx) (v : BitVec n) : M W Unit :=
  modify fun h => { h with fpRegs := Function.update h.fpRegs r (u.toReg v) }

/-! ### Families -/

section

variable (x : IsaExt) (u : SoftFloat n) (i : Instruction)

/-- Operations on two operands. -/
def fpBinary (f : BitVec 3 → BitVec n → BitVec n → BitVec n × Byte) : M W Unit := do
  requireIsa x
  fpPrepareInstr
  fpSetupRm
  let a ← fpReg u i.rs1
  let b ← fpReg u i.rs2
  fpWrite u i.rd (← softfloat fun rm => f rm a b)
  fpFinishInstr

/-- `FSQRT`. -/
def fpSqrt : M W Unit := do
  requireIsa x
  fpPrepareInstr
  fpSetupRm
  let a ← fpReg u i.rs1
  fpWrite u i.rd (← softfloat fun rm => u.sqrt rm a)
  fpFinishInstr

/-- `mulAdd`, on the operands or their negations. -/
def fpFused (f1 f3 : BitVec n → BitVec n) : M W Unit := do
  requireIsa x
  fpPrepareInstr
  fpSetupRm
  let a ← fpReg u i.rs1
  let b ← fpReg u i.rs2
  let c ← fpReg u i.rs3
  fpWrite u i.rd (← softfloat fun rm => u.mulAdd rm (f1 a) b (f3 c))
  fpFinishInstr

/-- `lt_quiet(a, b) || (eq(a, b) && isNegative(a))`. -/
def fpBefore (a b : BitVec n) : M W Bool := do
  if ← softfloat fun _ => u.ltQuiet a b then return true
  else return (← softfloat fun _ => u.eq a b) && u.isNegative a

/-- The minimum or maximum, `first` telling whether it is the first operand. -/
def fpSelect (first : BitVec n → BitVec n → M W Bool) : M W Unit := do
  requireIsa x
  fpPrepareInstr
  let a ← fpReg u i.rs1
  let b ← fpReg u i.rs2
  let rs1First ← first a b
  fpWrite u i.rd
    (if u.isNaN a && u.isNaN b then u.defaultNaN else if rs1First then a else b)
  fpFinishInstr

/-- Conversions to an integer. -/
def fpToInt (f : BitVec n → BitVec 3 → Bool → Word × Byte) : M W Unit := do
  requireIsa x
  fpPrepareInstr
  fpSetupRm
  let a ← fpReg u i.rs1
  setReg i.rd (← softfloat fun rm => f a rm true)
  fpFinishInstr

/-- Conversions from an integer. -/
def fpOfInt (f : BitVec 3 → Word → BitVec n × Byte) : M W Unit := do
  requireIsa x
  fpPrepareInstr
  fpSetupRm
  let a ← reg i.rs1
  fpWrite u i.rd (← softfloat fun rm => f rm a)
  fpFinishInstr

/-- Conversions from another format. -/
def fpConvert {m : ℕ} (v : SoftFloat m) (f : BitVec 3 → BitVec m → BitVec n × Byte) :
    M W Unit := do
  requireIsa x
  fpPrepareInstr
  fpSetupRm
  let a ← fpReg v i.rs1
  fpWrite u i.rd (← softfloat fun rm => f rm a)
  fpFinishInstr

/-- Sign injections. -/
def fpSign (f : BitVec n → BitVec n → BitVec n) : M W Unit := do
  requireIsa x
  fpPrepareInstr
  let f1 ← fpReg u i.rs1
  let f2 ← fpReg u i.rs2
  fpWrite u i.rd (f f1 f2)
  fpSetDirty

/-- Comparisons. -/
def fpCompare (f : BitVec n → BitVec n → Bool × Byte) : M W Unit := do
  requireIsa x
  fpPrepareInstr
  let a ← fpReg u i.rs1
  let b ← fpReg u i.rs2
  let c ← softfloat fun _ => f a b
  setReg i.rd (if c then 1 else 0)
  fpUpdateExceptionFlags

/-- `FCLASS` raises no flags, and leaves `mstatus`. -/
def fpClass : M W Unit := do
  requireIsa x
  fpPrepareInstr
  let a ← fpReg u i.rs1
  setReg i.rd (u.classify a)

end

/-- `F32_SIGN_BIT`, `F64_SIGN_BIT`. -/
def signBit (n : ℕ) : BitVec n := BitVec.intMin n

/-- `FSGNJ`: the sign of the second operand. -/
def sgnj (f1 f2 : BitVec n) : BitVec n := (f1 &&& ~~~signBit n) ||| (f2 &&& signBit n)
/-- `FSGNJN`: the opposite sign. -/
def sgnjn (f1 f2 : BitVec n) : BitVec n := (f1 &&& ~~~signBit n) ||| (~~~f2 &&& signBit n)
/-- `FSGNJX`: the sign of both together. -/
def sgnjx (f1 f2 : BitVec n) : BitVec n := f1 ^^^ (f2 &&& signBit n)

/-! ### Loads, stores and moves -/

section

variable (env : Env W) (i : Instruction)

/-- `FLW`, without the check that `FS` is not off. -/
def flw : M W Unit := do
  requireIsa .f
  let addr := (← reg i.rs1) + i.iImm
  trapCheckAddrAlignment env 4 true addr
  fpWrite env.f32 i.rd (← access (env.loadWord addr))

/-- `FSW`, without this check too. -/
def fsw : M W Unit := do
  requireIsa .f
  let addr := (← reg i.rs1) + i.sImm
  trapCheckAddrAlignment env 4 false addr
  let h ← get
  access (env.storeWord addr (env.fpRegU32 (h.fpRegs i.rs2)))

/-- `FLD`, like `FLW`. -/
def fld : M W Unit := do
  requireIsa .d
  let addr := (← reg i.rs1) + i.iImm
  trapCheckAddrAlignment env 8 true addr
  fpWrite env.f64 i.rd (← access (env.loadDouble addr))

/-- `FSD`, like `FSW`. -/
def fsd : M W Unit := do
  requireIsa .d
  let addr := (← reg i.rs1) + i.sImm
  trapCheckAddrAlignment env 8 false addr
  access (env.storeDouble addr (← fpReg env.f64 i.rs2))

/-- `FMV.W.X`. -/
def fmvWX : M W Unit := do
  requireIsa .f
  fpPrepareInstr
  fpWrite env.f32 i.rd (← reg i.rs1)
  fpSetDirty

/-- `FMV.X.W`. -/
def fmvXW : M W Unit := do
  requireIsa .f
  fpPrepareInstr
  let h ← get
  setReg i.rd (env.fpRegU32 (h.fpRegs i.rs1))

/-- The floating-point cases; any other opcode is unknown here. -/
def execFloat : Opcode → M W Unit
  | .flw => flw env i
  | .fsw => fsw env i
  | .faddS => fpBinary .f env.f32 i env.f32.add
  | .fsubS => fpBinary .f env.f32 i env.f32.sub
  | .fmulS => fpBinary .f env.f32 i env.f32.mul
  | .fdivS => fpBinary .f env.f32 i env.f32.div
  | .fsqrtS => fpSqrt .f env.f32 i
  | .fminS => fpSelect .f env.f32 i fun a b => fpBefore env.f32 a b
  | .fmaxS => fpSelect .f env.f32 i fun a b => fpBefore env.f32 b a
  | .fmaddS => fpFused .f env.f32 i id id
  | .fmsubS => fpFused .f env.f32 i id env.f32.neg
  | .fnmaddS => fpFused .f env.f32 i env.f32.neg env.f32.neg
  | .fnmsubS => fpFused .f env.f32 i env.f32.neg id
  | .fcvtWS => fpToInt .f env.f32 i env.f32.toI32
  | .fcvtWuS => fpToInt .f env.f32 i env.f32.toUi32
  | .fcvtSW => fpOfInt .f env.f32 i env.f32.ofI32
  | .fcvtSWu => fpOfInt .f env.f32 i env.f32.ofUi32
  | .fsgnjS => fpSign .f env.f32 i sgnj
  | .fsgnjnS => fpSign .f env.f32 i sgnjn
  | .fsgnjxS => fpSign .f env.f32 i sgnjx
  | .fmvWX => fmvWX env i
  | .fmvXW => fmvXW env i
  | .feqS => fpCompare .f env.f32 i env.f32.eq
  | .fltS => fpCompare .f env.f32 i env.f32.lt
  | .fleS => fpCompare .f env.f32 i env.f32.le
  | .fclassS => fpClass .f env.f32 i
  | .fld => fld env i
  | .fsd => fsd env i
  | .faddD => fpBinary .d env.f64 i env.f64.add
  | .fsubD => fpBinary .d env.f64 i env.f64.sub
  | .fmulD => fpBinary .d env.f64 i env.f64.mul
  | .fdivD => fpBinary .d env.f64 i env.f64.div
  | .fsqrtD => fpSqrt .d env.f64 i
  | .fminD => fpSelect .d env.f64 i fun a b => fpBefore env.f64 a b
  | .fmaxD => fpSelect .d env.f64 i fun a b => fpBefore env.f64 b a
  | .fmaddD => fpFused .d env.f64 i id id
  | .fmsubD => fpFused .d env.f64 i id env.f64.neg
  | .fnmaddD => fpFused .d env.f64 i env.f64.neg env.f64.neg
  | .fnmsubD => fpFused .d env.f64 i env.f64.neg id
  | .fsgnjD => fpSign .d env.f64 i sgnj
  | .fsgnjnD => fpSign .d env.f64 i sgnjn
  | .fsgnjxD => fpSign .d env.f64 i sgnjx
  | .fcvtSD => fpConvert .d env.f32 i env.f64 env.f64ToF32
  | .fcvtDS => fpConvert .d env.f64 i env.f32 env.f32ToF64
  | .feqD => fpCompare .d env.f64 i env.f64.eq
  | .fltD => fpCompare .d env.f64 i env.f64.lt
  | .fleD => fpCompare .d env.f64 i env.f64.le
  | .fclassD => fpClass .d env.f64 i
  | .fcvtWD => fpToInt .d env.f64 i env.f64.toI32
  | .fcvtWuD => fpToInt .d env.f64 i env.f64.toUi32
  | .fcvtDW => fpOfInt .d env.f64 i env.f64.ofI32
  | .fcvtDWu => fpOfInt .d env.f64 i env.f64.ofUi32
  | _ => throw (.runtimeError "unknown opcode")

end

end

end Vcil.Iss
