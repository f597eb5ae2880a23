import Mathlib.Logic.Function.Basic
import Vcil.Host.NiceUart
import Vcil.Lib.BitFields
import Vcil.Lib.Fallible
import Vcil.Timing.Pipeline

/-!
# The instruction set simulator: state and surroundings

`ISS` of `iss.cpp`, an RV32 hart.

* `Opcode`, `Instruction`: what the decoder delivers;
* `Csrs`, `Mstatus`, `IsaExt`: the control and status registers and their fields;
* `Hart`: everything the object holds except the pipeline timing model, `TimedHart` with it;
* `Env`: the parts of the virtual platform the simulator calls: decoder, memory interface, SoftFloat,
  coprocessor port, syscall handler, clocks;
* `M`: computations on a hart that may raise a trap, another exception or a failed assertion.
-/

namespace Vcil.Iss

open Host (NiceUart ReadResult)

/-- The number of an integer register. -/
abbrev RegIdx := BitVec 5
/-- The address of a control and status register. -/
abbrev CsrAddr := BitVec 12

/-! ### Privilege levels and exceptions -/

/-- `PrivilegeLevel`; the value 2 is none of the three levels. -/
abbrev PrivilegeLevel := BitVec 2

/-- `UserMode`. -/
def userMode : PrivilegeLevel := 0
/-- `SupervisorMode`. -/
def supervisorMode : PrivilegeLevel := 1
/-- `MachineMode`. -/
def machineMode : PrivilegeLevel := 3

/-- `ExceptionCode`, and the numbers of interrupts. -/
abbrev ExceptionCode := BitVec 5

/-- `EXC_ILLEGAL_INSTR`. -/
def excIllegalInstr : ExceptionCode := 2
/-- `EXC_ECALL_U_MODE`. -/
def excEcallUMode : ExceptionCode := 8
/-- `EXC_ECALL_S_MODE`. -/
def excEcallSMode : ExceptionCode := 9
/-- `EXC_ECALL_M_MODE`. -/
def excEcallMMode : ExceptionCode := 11

/-- `SimulationTrap`. -/
structure SimulationTrap where
  reason : ExceptionCode
  mtval : BitVec 64
  deriving DecidableEq, Repr

/-- How a call can end other than by returning: with an exception, with a failed assertion, or not
at all. -/
inductive Raise
  | trap (e : SimulationTrap)
  | runtimeError (what : String)
  | badLexicalCast
  | assertion
  | blocked
  deriving DecidableEq, Repr

/-! ### Instructions -/

/-- `Opcode::Mapping`; `unknown` is any value no case of the simulator names. -/
inductive Opcode
  | undef | custom3
  | addi | slti | sltiu | xori | ori | andi
  | add | sub | sll | slt | sltu | srl | sra | xor | or | and
  | slli | srli | srai | lui | auipc | jal | jalr
  | sb | sh | sw | lb | lh | lw | lbu | lhu
  | beq | bne | blt | bge | bltu | bgeu
  | fence | fenceI | ecall | ebreak
  | csrrw | csrrs | csrrc | csrrwi | csrrsi | csrrci
  | mul | mulh | mulhu | mulhsu | div | divu | rem | remu
  | lrW | scW | amoswapW | amoaddW | amoxorW | amoandW | amoorW | amominW | amominuW | amomaxW
  | amomaxuW
  | flw | fsw | faddS | fsubS | fmulS | fdivS | fsqrtS | fminS | fmaxS | fmaddS | fmsubS | fnmaddS
  | fnmsubS | fcvtWS | fcvtWuS | fcvtSW | fcvtSWu | fsgnjS | fsgnjnS | fsgnjxS | fmvWX | fmvXW
  | feqS | fltS | fleS | fclassS
  | fld | fsd | faddD | fsubD | fmulD | fdivD | fsqrtD | fminD | fmaxD | fmaddD | fmsubD | fnmaddD
  | fnmsubD | fsgnjD | fsgnjnD | fsgnjxD | fcvtSD | fcvtDS | feqD | fltD | fleD | fclassD | fcvtWD
  | fcvtWuD | fcvtDW | fcvtDWu
  | wfi | sfenceVma | uret | sret | mret
  | lwu | ld | sd | addiw | slliw | srliw | sraiw | addw | subw | sllw | srlw | sraw
  | mulw | divw | divuw | remw | remuw
  | lrD | scD | amoswapD | amoaddD | amoxorD | amoandD | amoorD | amominD | amomaxD | amominuD
  | amomaxuD
  | fcvtLS | fcvtLuS | fcvtSL | fcvtSLu | fcvtLD | fcvtLuD | fmvXD | fcvtDL | fcvtDLu | fmvDX
  | unknown
  deriving DecidableEq, Repr

/-- An instruction word with its fields, the immediates sign extended. -/
structure Instruction where
  data : Word
  rd : RegIdx
  rs1 : RegIdx
  rs2 : RegIdx
  rs3 : RegIdx
  funct3 : BitVec 3
  funct7 : BitVec 7
  iImm : Word
  sImm : Word
  bImm : Word
  uImm : Word
  jImm : Word
  shamt : BitVec 5
  csr : CsrAddr
  zimm : BitVec 5
  frm : BitVec 3
  deriving DecidableEq, Repr

/-! ### Control and status registers -/

namespace Mstatus

/-- The interrupt enable bit of user mode. -/
abbrev uie : BitField := ⟨0, 1⟩
/-- The interrupt enable bit of supervisor mode. -/
abbrev sie : BitField := ⟨1, 1⟩
/-- The interrupt enable bit of machine mode. -/
abbrev mie : BitField := ⟨3, 1⟩
/-- `UIE` before the trap into user mode. -/
abbrev upie : BitField := ⟨4, 1⟩
/-- `SIE` before the trap into supervisor mode. -/
abbrev spie : BitField := ⟨5, 1⟩
/-- `MIE` before the trap into machine mode. -/
abbrev mpie : BitField := ⟨7, 1⟩
/-- The level before the trap into supervisor mode. -/
abbrev spp : BitField := ⟨8, 1⟩
/-- The level before the trap into machine mode. -/
abbrev mpp : BitField := ⟨11, 2⟩
/-- The state of the floating-point registers. -/
abbrev fs : BitField := ⟨13, 2⟩
/-- Loads and stores are made with the rights of `MPP`. -/
abbrev mprv : BitField := ⟨17, 1⟩
/-- Supervisor mode may access the pages of user mode. -/
abbrev sum : BitField := ⟨18, 1⟩
/-- Executable pages may be read. -/
abbrev mxr : BitField := ⟨19, 1⟩
/-- Accesses to `SATP`, and `SFENCE.VMA`, trap in supervisor mode. -/
abbrev tvm : BitField := ⟨20, 1⟩
/-- `WFI` traps in supervisor mode. -/
abbrev tw : BitField := ⟨21, 1⟩
/-- `SRET` traps in supervisor mode. -/
abbrev tsr : BitField := ⟨22, 1⟩
/-- The floating-point registers are dirty. -/
abbrev sd : BitField := ⟨31, 1⟩

end Mstatus

/-- `FS_OFF`. -/
def fsOff : BitVec 2 := 0
/-- `FS_DIRTY`. -/
def fsDirty : BitVec 2 := 3

/-- The extension bits of `misa`. -/
inductive IsaExt
  | a | c | d | e | f | m | s | u
  deriving DecidableEq, Repr

/-- The place of the bit, the letter of the extension. -/
def IsaExt.bit : IsaExt → ℕ
  | .a => 0 | .c => 2 | .d => 3 | .e => 4 | .f => 5 | .m => 12 | .s => 18 | .u => 20

/-- `misa.reg & X_ISA_EXT`. -/
def hasExt (misa : Word) (x : IsaExt) : Bool := misa.getLsbD x.bit

namespace Fcsr

/-- The accrued exceptions. -/
abbrev fflags : BitField := ⟨0, 5⟩
/-- The rounding mode. -/
abbrev frm : BitField := ⟨5, 3⟩

end Fcsr

namespace Cause

/-- The number of the interrupt or exception. -/
abbrev exceptionCode : BitField := ⟨0, 31⟩
/-- Set for interrupts. -/
abbrev interrupt : BitField := ⟨31, 1⟩

end Cause

/-- `csrs`: the registers that the simulator names, and the others. -/
structure Csrs where
  misa : Word
  mhartid : Word
  mstatus : Word
  mtvec : Word
  mepc : Word
  mcause : Word
  mtval : Word
  mie : Word
  mip : Word
  mideleg : Word
  medeleg : Word
  mcounteren : Word
  mcountinhibit : Word
  stvec : Word
  sepc : Word
  scause : Word
  stval : Word
  sideleg : Word
  sedeleg : Word
  scounteren : Word
  utvec : Word
  uepc : Word
  ucause : Word
  utval : Word
  satp : Word
  fcsr : Word
  time : BitVec 64
  cycle : BitVec 64
  instret : BitVec 64
  /-- The registers only `default_read32` and `default_write32` reach. -/
  others : CsrAddr → Word

/-! ### The state -/

/-- `CoreExecStatus`. -/
inductive CoreExecStatus
  | runnable
  | hitBreakpoint
  | terminated
  deriving DecidableEq, Repr

/-- The members of `ISS`, the pipeline timing model apart; `W` is the rest of the platform. -/
structure Hart (W : Type) where
  regs : RegIdx → Word
  fpRegs : RegIdx → BitVec 64
  pc : Word
  lastPc : Word
  prv : PrivilegeLevel
  csrs : Csrs
  op : Opcode
  instr : Instruction
  status : CoreExecStatus
  shallExit : Bool
  debugMode : Bool
  breakpoints : List (BitVec 64)
  ignoreWfi : Bool
  lrScCounter : ℤ
  softfloatExceptionFlags : Byte
  softfloatRoundingMode : BitVec 3
  sm3Nice : NiceUart
  sm4Nice : NiceUart
  totalNumInstr : BitVec 64
  /-- an `sc_time`: a number of picoseconds -/
  cycleCounter : BitVec 64
  currentCycles : BitVec 64
  lastCycles : BitVec 64
  outside : W

/-- The whole object, with the pipeline timing model of the `PIPELINE_TIMING` build. -/
structure TimedHart (W : Type) where
  hart : Hart W
  pipeline : Timing.Pipeline

/-- What a call of the platform can change: its own state, and `mip`, which devices set and clear. -/
structure World (W : Type) where
  mip : Word
  rest : W

/-- What the memory interface looks at in the hart. -/
structure MemView where
  prv : PrivilegeLevel
  mprv : BitVec 1
  mpp : BitVec 2
  sum : BitVec 1
  mxr : BitVec 1
  satp : Word
  mhartid : Word
  deriving DecidableEq, Repr

/-- A call of the memory interface. -/
abbrev Access (W α : Type) := MemView → World W → Except Raise α × World W

/-! ### Surroundings -/

/-- The write and read masks of `csr.h`. -/
structure CsrMasks where
  mstatus : Word
  sstatus : Word
  ustatus : Word
  mipRead : Word
  mipWrite : Word
  sip : Word
  uip : Word
  mie : Word
  sie : Word
  uie : Word
  satp : Word
  mtvec : Word
  mideleg : Word
  medeleg : Word
  sideleg : Word
  sedeleg : Word
  mcounteren : Word
  mcountinhibit : Word
  fcsr : Word

/-- The SoftFloat operations on one format: each returns its result and the flags it raises. -/
structure SoftFloat (n : ℕ) where
  add : BitVec 3 → BitVec n → BitVec n → BitVec n × Byte
  sub : BitVec 3 → BitVec n → BitVec n → BitVec n × Byte
  mul : BitVec 3 → BitVec n → BitVec n → BitVec n × Byte
  div : BitVec 3 → BitVec n → BitVec n → BitVec n × Byte
  sqrt : BitVec 3 → BitVec n → BitVec n × Byte
  mulAdd : BitVec 3 → BitVec n → BitVec n → BitVec n → BitVec n × Byte
  ltQuiet : BitVec n → BitVec n → Bool × Byte
  eq : BitVec n → BitVec n → Bool × Byte
  lt : BitVec n → BitVec n → Bool × Byte
  le : BitVec n → BitVec n → Bool × Byte
  toI32 : BitVec n → BitVec 3 → Bool → Word × Byte
  toUi32 : BitVec n → BitVec 3 → Bool → Word × Byte
  ofI32 : BitVec 3 → Word → BitVec n × Byte
  ofUi32 : BitVec 3 → Word → BitVec n × Byte
  isNegative : BitVec n → Bool
  isNaN : BitVec n → Bool
  neg : BitVec n → BitVec n
  classify : BitVec n → Word
  defaultNaN : BitVec n
  /-- The value of a floating-point register in the format. -/
  ofReg : BitVec 64 → BitVec n
  /-- The floating-point register that holds a value of the format. -/
  toReg : BitVec n → BitVec 64

/-- The macros that select the coprocessor instructions and their implementation. -/
structure NiceConfig where
  niceCore : Bool
  sm4NiceF : Bool
  sm4NiceT : Bool
  sm4NiceL : Bool
  sm4NiceLowerL : Bool
  sm3NiceUart : Bool
  sm4NiceUart : Bool
  deriving DecidableEq, Repr

/-- The parts of the virtual platform that are not the simulator's own. -/
structure Env (W : Type) where
  -- `instr.h`
  instruction : Word → Instruction
  isCustom : Instruction → Bool
  isCompressed : Instruction → Bool
  decodeNormal : Instruction → Opcode
  decodeAndExpandCompressed : Instruction → Opcode × Instruction
  -- `iss.h`
  pcAlignmentMask : Word → Word
  trapCheckPcAlignment : Word → Word → Option SimulationTrap
  trapCheckAddrAlignment : ℕ → Bool → Word → Option SimulationTrap
  executeAmo : (Word → Word → Word) → Instruction → (RegIdx → Word) →
    Access W ((RegIdx → Word) × Option SimulationTrap)
  amoCharge : Instruction → Timing.Pipeline → Timing.Pipeline
  hasLocalPendingEnabledInterrupts : Word → Word → Bool
  -- `csr.h`
  masks : CsrMasks
  isHpmcounter : CsrAddr → Bool
  isValidCsr32Addr : CsrAddr → Bool
  defaultRead32 : Csrs → CsrAddr → Word
  defaultWrite32 : Csrs → CsrAddr → Word → Csrs
  -- `mem_if.h`
  loadInstr : Word → Access W Word
  loadByte : Word → Access W Word
  loadHalf : Word → Access W Word
  loadWord : Word → Access W Word
  loadUbyte : Word → Access W Word
  loadUhalf : Word → Access W Word
  loadDouble : Word → Access W (BitVec 64)
  storeByte : Word → Byte → Access W Unit
  storeHalf : Word → BitVec 16 → Access W Unit
  storeWord : Word → Word → Access W Unit
  storeDouble : Word → BitVec 64 → Access W Unit
  atomicLoadReservedWord : Word → Access W Word
  atomicStoreConditionalWord : Word → Word → Access W Bool
  atomicUnlock : Access W Unit
  flushTlb : World W → World W
  -- SoftFloat, and the floating-point registers of `fp.h`
  f32 : SoftFloat 32
  f64 : SoftFloat 64
  f32ToF64 : BitVec 3 → BitVec 32 → BitVec 64 × Byte
  f64ToF32 : BitVec 3 → BitVec 64 → BitVec 32 × Byte
  fpRegU32 : BitVec 64 → Word
  -- the serial port of the coprocessor
  nice : NiceConfig
  serial : Vector Byte 10 → World W → List ReadResult × World W
  -- the rest of the platform
  executeSyscall : Option (Word → Word → (RegIdx → Word) → World W →
    Except Raise ((RegIdx → Word) × Bool) × World W)
  updateAndGetMtime : World W → BitVec 64 × World W
  waitWfiEvent : World W → World W
  quantumInc : ℕ → World W → World W
  quantumNeedSync : World W → Bool
  quantumSync : World W → World W

/-! ### Computations -/

/-- A member function of `ISS` that does not touch the pipeline timing model. -/
abbrev M (W : Type) := EStateM Raise (Hart W)

section

variable {W α : Type}

/-- What the platform changes: the pending interrupts and its own state. -/
def Hart.world (h : Hart W) : World W := ⟨h.csrs.mip, h.outside⟩

/-- The hart after a call that left the platform in `w`. -/
def Hart.setWorld (h : Hart W) (w : World W) : Hart W :=
  { h with csrs := { h.csrs with mip := w.mip }, outside := w.rest }

/-- What the memory interface reads of the hart. -/
def Hart.memView (h : Hart W) : MemView where
  prv := h.prv
  mprv := Mstatus.mprv.get h.csrs.mstatus
  mpp := Mstatus.mpp.get h.csrs.mstatus
  sum := Mstatus.sum.get h.csrs.mstatus
  mxr := Mstatus.mxr.get h.csrs.mstatus
  satp := h.csrs.satp
  mhartid := h.csrs.mhartid

/-- A call of the memory interface. -/
def access (f : Access W α) : M W α := fun h =>
  match f h.memView h.world with
  | (.ok a, w) => .ok a (h.setWorld w)
  | (.error e, w) => .error e (h.setWorld w)

/-- A call that only changes the platform. -/
def onWorld (f : World W → World W) : M W Unit := modify fun h => h.setWorld (f h.world)

/-- `raise_trap(reason, mtval)`. -/
def raiseTrap (reason : ExceptionCode) (mtval : BitVec 64) : M W α := throw (.trap ⟨reason, mtval⟩)

/-- A check that returns the trap to raise, if any. -/
def raiseIfSome : Option SimulationTrap → M W Unit
  | some e => throw (.trap e)
  | none => pure ()

/-- `RAISE_ILLEGAL_INSTRUCTION()`. -/
def raiseIllegalInstruction : M W α := do
  let h ← get
  raiseTrap excIllegalInstr (h.instr.data.setWidth 64)

/-- `if (condition) RAISE_ILLEGAL_INSTRUCTION()`. -/
def illegalIf (condition : Hart W → Bool) : M W Unit := do
  let h ← get
  if condition h then raiseIllegalInstruction else pure ()

theorem illegalIf_bind (condition : Hart W → Bool) (k : Unit → M W α) (h : Hart W) :
    (illegalIf condition >>= k) h =
      if condition h then .error (.trap ⟨excIllegalInstr, h.instr.data.setWidth 64⟩) h
      else k () h := by
  have hcheck : illegalIf condition h =
      (if condition h then raiseIllegalInstruction else pure () : M W Unit) h := rfl
  by_cases hc : condition h = true
  · rw [if_pos hc] at hcheck ⊢
    exact Fallible.bind_of_error hcheck
  · rw [if_neg hc] at hcheck ⊢
    exact Fallible.bind_of_ok hcheck

theorem illegalIf_ok {condition : Hart W → Bool} {u : Unit} {h h' : Hart W}
    (hr : illegalIf condition h = .ok u h') : condition h = false ∧ h' = h := by
  have hcheck := illegalIf_bind condition pure h
  rw [bind_pure, hr] at hcheck
  split_ifs at hcheck with hc
  cases hcheck
  exact ⟨by simpa using hc, rfl⟩

/-- `REQUIRE_ISA(x)`. -/
def requireIsa (x : IsaExt) : M W Unit := illegalIf fun h => !hasExt h.csrs.misa x

/-- `assert(condition)`. -/
def assert (condition : Hart W → Bool) : M W Unit := do
  let h ← get
  if condition h then pure () else throw .assertion

theorem assert_eq (condition : Hart W → Bool) (h : Hart W) :
    assert condition h = if condition h then .ok () h else .error .assertion h := by
  have hcheck : assert condition h =
      (if condition h then pure () else throw .assertion : M W Unit) h := rfl
  rw [hcheck]
  split <;> rfl

/-- `s_mode()`. -/
def sMode (h : Hart W) : Bool := h.prv = supervisorMode
/-- `u_mode()`. -/
def uMode (h : Hart W) : Bool := h.prv = userMode

/-- `regs[r]`. -/
def reg (r : RegIdx) : M W Word := do return (← get).regs r

/-- `regs[r] = v`. -/
def setReg (r : RegIdx) (v : Word) : M W Unit :=
  modify fun h => { h with regs := Function.update h.regs r v }

/-- `pc = pc`. -/
def setPc (pc : Word) : M W Unit := modify fun h => { h with pc := pc }

/-- `prv = prv`. -/
def setPrv (prv : PrivilegeLevel) : M W Unit := modify fun h => { h with prv := prv }

/-- A change of the control and status registers. -/
def setCsrs (f : Csrs → Csrs) : M W Unit := modify fun h => { h with csrs := f h.csrs }

/-- `csrs.mstatus.field = v`. -/
def setMstatus (f : BitField) (v : BitVec f.len) : M W Unit :=
  setCsrs fun c => { c with mstatus := f.put v c.mstatus }

/-- `lr_sc_counter = n`. -/
def setLrScCounter (n : ℤ) : M W Unit := modify fun h => { h with lrScCounter := n }

/-- `trap_check_addr_alignment<alignment, isLoad>(addr)`. -/
def trapCheckAddrAlignment (env : Env W) (alignment : ℕ) (isLoad : Bool) (addr : Word) : M W Unit :=
  raiseIfSome (env.trapCheckAddrAlignment alignment isLoad addr)

/-- `trap_check_pc_alignment()`. -/
def trapCheckPcAlignment (env : Env W) : M W Unit := do
  let h ← get
  raiseIfSome (env.trapCheckPcAlignment h.csrs.misa h.pc)

/-! How a computation returns. -/

theorem reg_eq_ok {r : RegIdx} {v : Word} {h h' : Hart W} :
    reg r h = .ok v h' ↔ v = h.regs r ∧ h' = h := by
  constructor
  · intro hr
    cases hr
    exact ⟨rfl, rfl⟩
  · rintro ⟨rfl, rfl⟩
    rfl

theorem requireIsa_eq_ok {x : IsaExt} {u : Unit} {h h' : Hart W} :
    requireIsa x h = .ok u h' ↔ hasExt h.csrs.misa x = true ∧ h' = h := by
  have hcheck := illegalIf_bind (fun h => !hasExt h.csrs.misa x) pure h
  rw [bind_pure] at hcheck
  rw [requireIsa, hcheck]
  cases hasExt h.csrs.misa x with
  | false => simp
  | true =>
    constructor
    · intro hr
      cases hr
      exact ⟨rfl, rfl⟩
    · rintro ⟨-, rfl⟩
      rfl

theorem raiseIfSome_eq_ok {e : Option SimulationTrap} {u : Unit} {h h' : Hart W} :
    raiseIfSome e h = .ok u h' ↔ e = none ∧ h' = h := by
  cases e with
  | some e =>
    constructor
    · intro hr
      cases hr
    · intro hr
      simp at hr
  | none =>
    constructor
    · intro hr
      cases hr
      exact ⟨rfl, rfl⟩
    · rintro ⟨-, rfl⟩
      rfl

theorem access_eq_ok {f : Access W α} {a : α} {h h' : Hart W} :
    access f h = .ok a h' ↔ ∃ w, f h.memView h.world = (.ok a, w) ∧ h' = h.setWorld w := by
  unfold access
  rcases f h.memView h.world with ⟨_ | b, w⟩
  · simp
  · constructor
    · intro hr
      cases hr
      exact ⟨w, rfl, rfl⟩
    · rintro ⟨_, hf, rfl⟩
      cases hf
      rfl

theorem access_eq_error {f : Access W α} {e : Raise} {h h' : Hart W} :
    access f h = .error e h' ↔ ∃ w, f h.memView h.world = (.error e, w) ∧ h' = h.setWorld w := by
  unfold access
  rcases f h.memView h.world with ⟨_ | b, w⟩
  · constructor
    · intro hr
      cases hr
      exact ⟨w, rfl, rfl⟩
    · rintro ⟨_, hf, rfl⟩
      cases hf
      rfl
  · simp

/-- `release_lr_sc_reservation`. -/
def releaseLrScReservation (env : Env W) : M W Unit := do
  setLrScCounter 0
  access env.atomicUnlock

end

end Vcil.Iss
