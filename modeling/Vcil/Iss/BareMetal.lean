import Vcil.Iss.RunStep

/-!
# A hart on bare memory

The smallest platform a hart runs on: one word of memory for each address, no devices, the
coprocessor in software, no syscall handler, and a decoder for the few instructions that examples
execute.

* `Env.bare`: the platform;
* `Hart.reset`: a hart with everything cleared.
-/

namespace Vcil.Iss

/-- The fields of an instruction word. -/
def Instruction.ofWord (w : Word) : Instruction where
  data := w
  rd := w.extractLsb' 7 5
  rs1 := w.extractLsb' 15 5
  rs2 := w.extractLsb' 20 5
  rs3 := w.extractLsb' 27 5
  funct3 := w.extractLsb' 12 3
  funct7 := w.extractLsb' 25 7
  iImm := (w.extractLsb' 20 12).signExtend 32
  sImm := (w.extractLsb' 25 7 ++ w.extractLsb' 7 5).signExtend 32
  bImm := (w.extractLsb' 31 1 ++ w.extractLsb' 7 1 ++ w.extractLsb' 25 6 ++ w.extractLsb' 8 4 ++
    0#1).signExtend 32
  uImm := w.extractLsb' 12 20 ++ 0#12
  jImm := (w.extractLsb' 31 1 ++ w.extractLsb' 12 8 ++ w.extractLsb' 20 1 ++ w.extractLsb' 21 10 ++
    0#1).signExtend 32
  shamt := w.extractLsb' 20 5
  csr := w.extractLsb' 20 12
  zimm := w.extractLsb' 15 5
  frm := w.extractLsb' 12 3

/-- The major opcodes and `funct3` values of a few instructions. -/
def bareDecode (i : Instruction) : Opcode :=
  let opcode := i.data.extractLsb' 0 7
  if i.data = 0x30200073 then .mret
  else if opcode = 0b0010011 ∧ i.funct3 = 0 then .addi
  else if opcode = 0b1110011 ∧ i.funct3 = 0b110 then .csrrsi
  else if opcode = 0b0101111 ∧ i.funct3 = 0b010 ∧ i.data.extractLsb' 27 5 = 0b00010 then .lrW
  else if opcode = 0b1111011 then .custom3
  else .undef

def SoftFloat.none (n : ℕ) : SoftFloat n where
  add _ _ _ := (0, 0)
  sub _ _ _ := (0, 0)
  mul _ _ _ := (0, 0)
  div _ _ _ := (0, 0)
  sqrt _ _ := (0, 0)
  mulAdd _ _ _ _ := (0, 0)
  ltQuiet _ _ := (false, 0)
  eq _ _ := (false, 0)
  lt _ _ := (false, 0)
  le _ _ := (false, 0)
  toI32 _ _ _ := (0, 0)
  toUi32 _ _ _ := (0, 0)
  ofI32 _ _ := (0, 0)
  ofUi32 _ _ := (0, 0)
  isNegative _ := false
  isNaN _ := false
  neg x := x
  classify _ := 0
  defaultNaN := 0
  ofReg x := x.setWidth n
  toReg x := x.setWidth 64

/-- A memory of words. -/
abbrev BareMemory := Word → Word

section

variable {α : Type}

/-- A load. -/
def bareLoad (f : Word → α) (addr : Word) : Access BareMemory α := fun _ w =>
  (.ok (f (w.rest addr)), w)

/-- A store. -/
def bareStore (f : α → Word) (addr : Word) (v : α) : Access BareMemory Unit := fun _ w =>
  (.ok (), { w with rest := Function.update w.rest addr (f v) })

end

/-- A platform of this memory alone, with a decoder for a few instructions. -/
def Env.bare : Env BareMemory where
  instruction := Instruction.ofWord
  isCustom i := i.data.extractLsb' 0 7 = 0b1111011
  isCompressed i := i.data.extractLsb' 0 2 ≠ 3
  decodeNormal := bareDecode
  decodeAndExpandCompressed i := (.undef, i)
  pcAlignmentMask misa := if hasExt misa .c then ~~~1 else ~~~3
  trapCheckPcAlignment misa pc :=
    if pc &&& (if hasExt misa .c then 1 else 3) = 0 then none else some ⟨0, pc.setWidth 64⟩
  trapCheckAddrAlignment n isLoad addr :=
    if addr.toNat % n = 0 then none else some ⟨if isLoad then 4 else 6, addr.setWidth 64⟩
  executeAmo f i regs := fun _ w =>
    let addr := regs i.rs1
    (.ok (Function.update regs i.rd (w.rest addr), none),
      { w with rest := Function.update w.rest addr (f (w.rest addr) (regs i.rs2)) })
  amoCharge _ p := p
  hasLocalPendingEnabledInterrupts mie mip := mie &&& mip ≠ 0
  masks := {
    mstatus := 0x807FF9BB, sstatus := 0x800DE133, ustatus := 0x11, mipRead := 0xBBB,
    mipWrite := 0x333, sip := 0x333, uip := 0x111, mie := 0xBBB, sie := 0x333, uie := 0x111,
    satp := 0xFFFFFFFF, mtvec := 0xFFFFFFFD, mideleg := 0x333, medeleg := 0xB1FF,
    sideleg := 0x111, sedeleg := 0xB1FF, mcounteren := 0xFFFFFFFF, mcountinhibit := 0x5,
    fcsr := 0xFF }
  isHpmcounter addr := 0xC03 ≤ addr && addr ≤ 0xC1F
  isValidCsr32Addr addr := 0xF11 ≤ addr && addr ≤ 0xF14
  defaultRead32 c addr := c.others addr
  defaultWrite32 c addr v := { c with others := Function.update c.others addr v }
  loadInstr := bareLoad id
  loadByte := bareLoad fun v => (v.setWidth 8).signExtend 32
  loadHalf := bareLoad fun v => (v.setWidth 16).signExtend 32
  loadWord := bareLoad id
  loadUbyte := bareLoad fun v => (v.setWidth 8).setWidth 32
  loadUhalf := bareLoad fun v => (v.setWidth 16).setWidth 32
  loadDouble := bareLoad fun v => v.setWidth 64
  storeByte := bareStore fun v => v.setWidth 32
  storeHalf := bareStore fun v => v.setWidth 32
  storeWord := bareStore id
  storeDouble := bareStore fun v => v.setWidth 32
  atomicLoadReservedWord := bareLoad id
  atomicStoreConditionalWord addr v := fun view w =>
    (.ok true, (bareStore id addr v view w).2)
  atomicUnlock := fun _ w => (.ok (), w)
  flushTlb := id
  f32 := .none 32
  f64 := .none 64
  f32ToF64 _ _ := (0, 0)
  f64ToF32 _ _ := (0, 0)
  fpRegU32 v := v.setWidth 32
  nice := ⟨true, true, true, true, true, false, false⟩
  serial _ w := ([], w)
  executeSyscall := none
  updateAndGetMtime w := (0, w)
  waitWfiEvent := id
  quantumInc _ w := w
  quantumNeedSync _ := false
  quantumSync := id

/-- All registers but `misa` and `mstatus` are 0. -/
def Csrs.reset (misa mstatus : Word) : Csrs where
  misa := misa
  mhartid := 0
  mstatus := mstatus
  mtvec := 0
  mepc := 0
  mcause := 0
  mtval := 0
  mie := 0
  mip := 0
  mideleg := 0
  medeleg := 0
  mcounteren := 0
  mcountinhibit := 0
  stvec := 0
  sepc := 0
  scause := 0
  stval := 0
  sideleg := 0
  sedeleg := 0
  scounteren := 0
  utvec := 0
  uepc := 0
  ucause := 0
  utval := 0
  satp := 0
  fcsr := 0
  time := 0
  cycle := 0
  instret := 0
  others _ := 0

/-- A hart at address zero of a memory. -/
def Hart.reset (prv : PrivilegeLevel) (misa mstatus : Word) (mem : BareMemory) :
    Hart BareMemory where
  regs _ := 0
  fpRegs _ := 0
  pc := 0
  lastPc := 0
  prv := prv
  csrs := .reset misa mstatus
  op := .undef
  instr := .ofWord 0
  status := .runnable
  shallExit := false
  debugMode := false
  breakpoints := []
  ignoreWfi := false
  lrScCounter := 0
  softfloatExceptionFlags := 0
  softfloatRoundingMode := 0
  sm3Nice := .init
  sm4Nice := .init
  totalNumInstr := 0
  cycleCounter := 0
  currentCycles := 0
  lastCycles := 0
  outside := mem

end Vcil.Iss
