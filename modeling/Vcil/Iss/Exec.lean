import Vcil.Iss.Csr
import Vcil.Iss.Float
import Vcil.Iss.Trap

/-!
# What the builds of `exec_step` share

* `mulResult`, `divResult`, …: the results the two texts of a case compute alike;
* `fetch`: fetch and decoding, up to the switch;
* `execShared`: the cases with one text for all builds, `executeAmo` the AMOs;
* `custom3Case`, `niceCall`: the coprocessor instructions and the driver they call.
-/

namespace Vcil.Iss

open Host (NiceUart)

/-! ### Results -/

/-- A comparison as a register value. -/
def ofBool (b : Bool) : Word := if b then 1 else 0

/-- `BIT_RANGE(v, 4, 0)`. -/
def shiftAmount (v : Word) : ℕ := (v.setWidth 5).toNat

/-- `REG_MIN`, the smallest signed value. -/
def regMin : Word := 0x80000000

/-- `MUL`: the lower half of the product. -/
def mulResult (a b : Word) : Word :=
  let ans : BitVec 64 := a.signExtend 64 * b.signExtend 64
  (ans &&& 0xFFFFFFFF).setWidth 32

/-- The mask and the shift of the `MULH` instructions. -/
def upperHalf (ans : BitVec 64) : Word := ((ans &&& 0xFFFFFFFF00000000) >>> 32).setWidth 32

/-- `MULH`: both operands are signed. -/
def mulhResult (a b : Word) : Word := upperHalf (a.signExtend 64 * b.signExtend 64)
/-- `MULHU`: both operands are unsigned. -/
def mulhuResult (a b : Word) : Word := upperHalf (a.setWidth 64 * b.setWidth 64)
/-- `MULHSU`: the first operand is signed. -/
def mulhsuResult (a b : Word) : Word := upperHalf (a.signExtend 64 * b.setWidth 64)

/-- `DIV`, with the two cases that C++ leaves undefined. -/
def divResult (a b : Word) : Word :=
  if b = 0 then -1 else if a = regMin ∧ b = -1 then a else a.sdiv b

/-- `DIVU`, with the division by zero. -/
def divuResult (a b : Word) : Word := if b = 0 then -1 else a / b

/-- `REM`, with the two cases that C++ leaves undefined. -/
def remResult (a b : Word) : Word :=
  if b = 0 then a else if a = regMin ∧ b = -1 then 0 else a.srem b

/-- `REMU`, with the division by zero. -/
def remuResult (a b : Word) : Word := if b = 0 then a else a % b

/-- `std::min(a, b)` on signed values. -/
def minResult (a b : Word) : Word := if b.slt a then b else a
/-- `std::max(a, b)` on signed values. -/
def maxResult (a b : Word) : Word := if a.slt b then b else a
/-- `std::min(a, b)` on unsigned values. -/
def minuResult (a b : Word) : Word := if b < a then b else a
/-- `std::max(a, b)` on unsigned values. -/
def maxuResult (a b : Word) : Word := if a < b then b else a

section

variable {W : Type} (env : Env W)

/-! ### Fetch and decoding -/

/-- The load of the instruction word. -/
def loadInstr : M W Unit := fun h =>
  match access (env.loadInstr h.pc) h with
  | .ok memWord h => .ok () { h with instr := env.instruction memWord }
  | .error (.trap e) h => .error (.trap e) { h with op := .undef, instr := env.instruction 0 }
  | .error e h => .error e h

/-- An instruction of four bytes. -/
def decodeNormal : M W Unit :=
  modify fun h => { h with op := env.decodeNormal h.instr, pc := h.pc + 4 }

/-- An instruction of two bytes, which is expanded; it needs the C extension. -/
def decodeCompressed : M W Unit := do
  modify fun h =>
    let r := env.decodeAndExpandCompressed h.instr
    { h with op := r.1, instr := r.2, pc := h.pc + 2 }
  illegalIf fun h => h.op ≠ .undef && !hasExt h.csrs.misa .c

/-- The instruction word tells its length. -/
def decode : M W Unit := do
  let h ← get
  if env.isCustom h.instr then decodeNormal env
  else if env.isCompressed h.instr then decodeCompressed env
  else decodeNormal env

/-- The begin of `exec_step`: the instruction is loaded and decoded, and `pc` moves on. -/
def fetch : M W Unit := do
  assert fun h => h.pc &&& ~~~env.pcAlignmentMask h.csrs.misa = 0
  loadInstr env
  decode env

/-! ### Cases with one text -/

/-- `cycle_time`: ten nanoseconds in the units of `sc_time`, which are picoseconds by default. -/
def cycleTime : ℕ := 10000

/-- `_compute_and_get_current_cycles`. -/
def computeAndGetCurrentCycles : M W (BitVec 64) := do
  assert fun h => h.cycleCounter.toNat % cycleTime = 0
  return BitVec.ofNat 64 ((← get).cycleCounter.toNat / cycleTime)

/-- The default case of the switch. -/
def unknownOpcode : M W Unit := throw (.runtimeError "unknown opcode")

/-- `ECALL` raises the trap of the present mode. -/
def ecallTrap : M W Unit := do
  let h ← get
  if h.prv = machineMode then raiseTrap excEcallMMode (h.lastPc.setWidth 64)
  else if h.prv = supervisorMode then raiseTrap excEcallSMode (h.lastPc.setWidth 64)
  else if h.prv = userMode then raiseTrap excEcallUMode (h.lastPc.setWidth 64)
  else unknownPrivilegeLevel h.prv

/-- `sys->execute_syscall(this)`. -/
def syscall (f : Word → Word → (RegIdx → Word) → World W →
    Except Raise ((RegIdx → Word) × Bool) × World W) : M W Unit := do
  let h ← get
  let r ← access fun _ => f h.csrs.misa h.csrs.mhartid h.regs
  modify fun h => { h with regs := r.1, shallExit := h.shallExit || r.2 }

/-- `ECALL`, which `sys` may emulate. -/
def ecall : M W Unit :=
  match env.executeSyscall with
  | some f => syscall f
  | none => ecallTrap

/-- `EBREAK` stops the simulation as a breakpoint does. -/
def ebreak : M W Unit := modify fun h => { h with status := .hitBreakpoint }

/-- `execute_amo`. -/
def executeAmo (i : Instruction) (f : Word → Word → Word) : M W Unit := do
  requireIsa .a
  let h ← get
  let r ← access (env.executeAmo f i h.regs)
  modify fun h => { h with regs := r.1 }
  raiseIfSome r.2

/-- `WFI`: the bus is unlocked, and the simulator waits for an interrupt that is enabled. -/
def wfi : M W Unit := do
  releaseLrScReservation env
  illegalIf fun h => sMode h && Mstatus.tw.isSet h.csrs.mstatus
  illegalIf fun h => uMode h && hasExt h.csrs.misa .s
  let h ← get
  if !h.ignoreWfi && !env.hasLocalPendingEnabledInterrupts h.csrs.mie h.csrs.mip then
    onWorld env.waitWfiEvent
  else pure ()

/-- `SFENCE.VMA`. -/
def sfenceVma : M W Unit := do
  illegalIf fun h => sMode h && Mstatus.tvm.isSet h.csrs.mstatus
  onWorld env.flushTlb

/-- `URET`. -/
def uret : M W Unit := do
  illegalIf fun h => !hasExt h.csrs.misa .u
  returnFromTrapHandler userMode

/-- `SRET`; in user mode it is not refused. -/
def sret : M W Unit := do
  illegalIf fun h => !hasExt h.csrs.misa .s || (sMode h && Mstatus.tsr.isSet h.csrs.mstatus)
  returnFromTrapHandler supervisorMode

/-- `MRET`, which is refused in no mode. -/
def mret : M W Unit := returnFromTrapHandler machineMode

/-- The cases without `#ifdef`. -/
def execShared (i : Instruction) : Opcode → M W Unit
  | .undef => raiseIllegalInstruction
  -- not using out of order execution so can be ignored
  | .fence | .fenceI => pure ()
  | .ecall => ecall env
  | .ebreak => ebreak
  | .wfi => wfi env
  | .sfenceVma => sfenceVma env
  | .uret => uret
  | .sret => sret
  | .mret => mret
  | .lwu | .ld | .sd | .addiw | .slliw | .srliw | .sraiw | .addw | .subw | .sllw | .srlw | .sraw
  | .mulw | .divw | .divuw | .remw | .remuw
  | .lrD | .scD | .amoswapD | .amoaddD | .amoxorD | .amoandD | .amoorD | .amominD | .amomaxD
  | .amominuD | .amomaxuD
  | .fcvtLS | .fcvtLuS | .fcvtSL | .fcvtSLu | .fcvtLD | .fcvtLuD | .fmvXD | .fcvtDL | .fcvtDLu
  | .fmvDX => raiseIllegalInstruction
  | op => execFloat env i op

/-- The operation of an AMO. -/
def amoOperation : Opcode → Option (Word → Word → Word)
  | .amoswapW => some fun _ b => b
  | .amoaddW => some (· + ·)
  | .amoxorW => some (· ^^^ ·)
  | .amoandW => some (· &&& ·)
  | .amoorW => some (· ||| ·)
  | .amominW => some minResult
  | .amominuW => some minuResult
  | .amomaxW => some maxResult
  | .amomaxuW => some maxuResult
  | _ => none

/-! ### The coprocessor -/

/-- The operations the driver only has in software. -/
inductive SoftwareOp
  | ksT | edT | ksL | edL | ksLowerL | edLowerL
  deriving DecidableEq, Repr

/-- The value of a software version. -/
def SoftwareOp.eval : SoftwareOp → Word → Word
  | .ksT, tk => sm4Linear (sm4Nonlinear tk) 0
  | .edT, tx => sm4Linear (sm4Nonlinear tx) 1
  | .ksL, tk => sm4Linear tk 0
  | .edL, tx => sm4Linear tx 1
  | .ksLowerL, tk => sm4Nonlinear tk
  | .edLowerL, tx => sm4Nonlinear tx

/-- The coprocessor instructions. -/
inductive Custom3
  | add
  | nice (op : Op)
  | software (op : SoftwareOp)
  deriving DecidableEq, Repr

/-- The case that `funct3` and `funct7` select, if any. -/
def custom3Case (i : Instruction) : Option Custom3 :=
  if i.funct3 ≠ 0b111 then none
  else if i.funct7 = 0b0000000 then some .add
  else if i.funct7 = 0b0000001 then some (.nice .sm3p0)
  else if i.funct7 = 0b0000010 then some (.nice .sm3p1)
  else if i.funct7 = 0b0000011 ∧ env.nice.sm4NiceF then some (.nice .sm4ks)
  else if i.funct7 = 0b0000100 ∧ env.nice.sm4NiceF then some (.nice .sm4ed)
  else if i.funct7 = 0b0000101 ∧ env.nice.sm4NiceT then some (.software .ksT)
  else if i.funct7 = 0b0000110 ∧ env.nice.sm4NiceT then some (.software .edT)
  else if i.funct7 = 0b0000111 ∧ env.nice.sm4NiceL then some (.software .ksL)
  else if i.funct7 = 0b0001000 ∧ env.nice.sm4NiceL then some (.software .edL)
  else if i.funct7 = 0b0001001 ∧ env.nice.sm4NiceLowerL then some (.software .ksLowerL)
  else if i.funct7 = 0b0001010 ∧ env.nice.sm4NiceLowerL then some (.software .edLowerL)
  else none

/-- The members and the variant of the driver of an operation. -/
def niceUart (h : Hart W) : Op → NiceUart
  | .sm3p0 | .sm3p1 => h.sm3Nice
  | .sm4ks | .sm4ed => h.sm4Nice

/-- The interface of the operation is changed. -/
def setNiceUart (h : Hart W) (u : NiceUart) : Op → Hart W
  | .sm3p0 | .sm3p1 => { h with sm3Nice := u }
  | .sm4ks | .sm4ed => { h with sm4Nice := u }

/-- The operation is sent to the board. -/
def usesUart : Op → Bool
  | .sm3p0 | .sm3p1 => env.nice.sm3NiceUart
  | .sm4ks | .sm4ed => env.nice.sm4NiceUart

/-- `custom3_sm3p0`, `custom3_sm3p1`, `custom3_sm4ks` or `custom3_sm4ed`, over the port or in
software. -/
def niceCall (op : Op) (x y : Word) : M W Word := fun h =>
  if usesUart env op then
    let r := env.serial (NiceUart.requestFor op x y) h.world
    match (niceUart h op).call op x y r.1 with
    | some ((v, u), _) => .ok v (setNiceUart (h.setWorld r.2) u op)
    | none => .error .blocked (h.setWorld r.2)
  else .ok (op.eval x y) h

end

end Vcil.Iss
