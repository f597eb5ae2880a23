import Vcil.Iss.Exec

/-!
# The two builds of `exec_step`

Most cases are written twice, without and with `PIPELINE_TIMING` (`BRANCH_TIMING` and `CACHE_TIMING`
stay off); so they are here.

* `opPlain`, `loadPlain`, … and `execPlain`: the build without the pipeline timing model;
* `PM`, `lift`, `read`, `write`: computations that also charge cycles;
* `opPipeline`, `loadPipeline`, … and `execPipeline`: the `PIPELINE_TIMING` build;
* `Build`, `exec`, `execStep`: the switch and the whole function of either build.
-/

namespace Vcil.Iss

open Host (NiceUart)
open Timing (Pipeline Range)

variable {W α : Type}

/-- The check of an access that needs no alignment. -/
def noCheck (_addr : Word) : M W Unit := pure ()

/-! ### Without `PIPELINE_TIMING` -/

section Plain

variable (env : Env W) (i : Instruction)

/-- `regs.shamt(r)`. -/
def regShamt (r : RegIdx) : M W ℕ := shiftAmount <$> reg r

/-- `regs[rd] = f(regs[rs1], I_imm)`. -/
def opImmPlain (f : Word → Word → Word) : M W Unit := do
  setReg i.rd (f (← reg i.rs1) i.iImm)

/-- `regs[rd] = f(regs[rs1], regs[rs2])`. -/
def opPlain (f : Word → Word → Word) : M W Unit := do
  let a ← reg i.rs1
  let b ← reg i.rs2
  setReg i.rd (f a b)

/-- A shift by the low five bits of `rs2`. -/
def shiftPlain (f : Word → ℕ → Word) : M W Unit := do
  let a ← reg i.rs1
  let s ← regShamt i.rs2
  setReg i.rd (f a s)

/-- A shift by the amount in the instruction. -/
def shiftImmPlain (f : Word → ℕ → Word) : M W Unit := do
  setReg i.rd (f (← reg i.rs1) i.shamt.toNat)

/-- `LUI`. -/
def luiPlain : M W Unit := setReg i.rd i.uImm

/-- `AUIPC`, relative to the address of the instruction. -/
def auipcPlain : M W Unit := do
  let h ← get
  setReg i.rd (h.lastPc + i.uImm)

/-- `JAL`: the target is checked before the link register is written. -/
def jalPlain : M W Unit := do
  let h ← get
  setPc (h.lastPc + i.jImm)
  trapCheckPcAlignment env
  setReg i.rd h.pc

/-- `JALR`: the target is computed from `rs1` before the link register, perhaps the same, is
written. -/
def jalrPlain : M W Unit := do
  let h ← get
  setPc ((h.regs i.rs1 + i.iImm) &&& ~~~1)
  trapCheckPcAlignment env
  setReg i.rd h.pc

/-- `SB`, `SH` and `SW`, with the alignment check and the call of the memory interface. -/
def storePlain (check : Word → M W Unit) (f : Word → Word → Access W Unit) : M W Unit := do
  let addr := (← reg i.rs1) + i.sImm
  check addr
  access (f addr (← reg i.rs2))

/-- The loads; a load that traps leaves `rd`. -/
def loadPlain (check : Word → M W Unit) (f : Word → Access W Word) : M W Unit := do
  let addr := (← reg i.rs1) + i.iImm
  check addr
  setReg i.rd (← access (f addr))

/-- The taken branch. -/
def takeBranch : M W Unit := do
  modify fun h => { h with pc := h.lastPc + i.bImm }
  trapCheckPcAlignment env

/-- A branch under the condition `c`. -/
def branchPlain (c : Word → Word → Bool) : M W Unit := do
  let a ← reg i.rs1
  let b ← reg i.rs2
  if c a b then takeBranch env i else pure ()

/-- `if (rd != RegFile::zero) regs[rd] = value`. -/
def setRdPlain (value : Word) : M W Unit := if i.rd ≠ 0 then setReg i.rd value else pure ()

/-- `get_csr_value(addr)`, where a read of the counters computes the current cycles. -/
def csrValuePlain (addr : CsrAddr) : M W Word := getCsrValue env computeAndGetCurrentCycles addr

/-- `if (rd != RegFile::zero) regs[rd] = get_csr_value(addr)`. -/
def csrToRdPlain : M W Unit :=
  if i.rd ≠ 0 then do setReg i.rd (← csrValuePlain env i.csr) else pure ()

/-- The CSR instructions that write a given value. -/
def csrWritePlain (value : M W Word) : M W Unit := do
  if ← isInvalidCsrAccess i.csr true then raiseIllegalInstruction
  else do
    let v ← value
    csrToRdPlain env i
    setCsrValue env i.csr v

/-- The CSR instructions that change bits of the old value. -/
def csrChangePlain (write : Bool) (value : M W Word) (f : Word → Word → Word) : M W Unit := do
  if ← isInvalidCsrAccess i.csr write then raiseIllegalInstruction
  else do
    let v ← value
    let csrVal ← csrValuePlain env i.csr
    setRdPlain i csrVal
    if write then setCsrValue env i.csr (f csrVal v) else pure ()

/-- The operations of the M extension. -/
def mulPlain (f : Word → Word → Word) : M W Unit := do
  requireIsa .m
  opPlain i f

/-- `LR.W`: a window of the instruction and 16 more begins, unless one is open. -/
def lrWPlain : M W Unit := do
  requireIsa .a
  let addr ← reg i.rs1
  trapCheckAddrAlignment env 4 true addr
  setReg i.rd (← access (env.atomicLoadReservedWord addr))
  let h ← get
  if h.lrScCounter = 0 then setLrScCounter 17 else pure ()

/-- `SC.W`: the window ends. -/
def scWPlain : M W Unit := do
  requireIsa .a
  let addr ← reg i.rs1
  trapCheckAddrAlignment env 4 false addr
  let val ← reg i.rs2
  -- failure by default, in case a trap is thrown
  setReg i.rd 1
  let stored ← access (env.atomicStoreConditionalWord addr val)
  setReg i.rd (if stored then 0 else 1)
  setLrScCounter 0

/-- The custom instructions: an addition, calls of the coprocessor, and their software versions. -/
def custom3Plain : M W Unit :=
  match custom3Case env i with
  | none => pure ()
  | some .add => opPlain i (· + ·)
  | some (.nice .sm3p0) => do setReg i.rd (← niceCall env .sm3p0 (← reg i.rs1) 0)
  | some (.nice .sm3p1) => do setReg i.rd (← niceCall env .sm3p1 (← reg i.rs1) 0)
  | some (.nice .sm4ks) => do
      let a ← reg i.rs1
      let b ← reg i.rs2
      setReg i.rd (← niceCall env .sm4ks a b)
  | some (.nice .sm4ed) => do
      let a ← reg i.rs1
      let b ← reg i.rs2
      setReg i.rd (← niceCall env .sm4ed a b)
  | some (.software op) => do setReg i.rd (op.eval (← reg i.rs1))

/-- The switch over the opcodes. -/
def execPlain : Opcode → M W Unit
  | .custom3 => if env.nice.niceCore then custom3Plain env i else unknownOpcode
  | .addi => opImmPlain i (· + ·)
  | .slti => opImmPlain i fun a b => ofBool (a.slt b)
  | .sltiu => opImmPlain i fun a b => ofBool (a < b)
  | .xori => opImmPlain i (· ^^^ ·)
  | .ori => opImmPlain i (· ||| ·)
  | .andi => opImmPlain i (· &&& ·)
  | .add => opPlain i (· + ·)
  | .sub => opPlain i (· - ·)
  | .sll => shiftPlain i fun a s => a <<< s
  | .slt => opPlain i fun a b => ofBool (a.slt b)
  | .sltu => opPlain i fun a b => ofBool (a < b)
  | .srl => shiftPlain i fun a s => a >>> s
  | .sra => shiftPlain i fun a s => a.sshiftRight s
  | .xor => opPlain i (· ^^^ ·)
  | .or => opPlain i (· ||| ·)
  | .and => opPlain i (· &&& ·)
  | .slli => shiftImmPlain i fun a s => a <<< s
  | .srli => shiftImmPlain i fun a s => a >>> s
  | .srai => shiftImmPlain i fun a s => a.sshiftRight s
  | .lui => luiPlain i
  | .auipc => auipcPlain i
  | .jal => jalPlain env i
  | .jalr => jalrPlain env i
  | .sb => storePlain i noCheck fun addr v => env.storeByte addr (v.setWidth 8)
  | .sh => storePlain i (trapCheckAddrAlignment env 2 false) fun addr v =>
      env.storeHalf addr (v.setWidth 16)
  | .sw => storePlain i (trapCheckAddrAlignment env 4 false) env.storeWord
  | .lb => loadPlain i noCheck env.loadByte
  | .lh => loadPlain i (trapCheckAddrAlignment env 2 true) env.loadHalf
  | .lw => loadPlain i (trapCheckAddrAlignment env 4 true) env.loadWord
  | .lbu => loadPlain i noCheck env.loadUbyte
  | .lhu => loadPlain i (trapCheckAddrAlignment env 2 true) env.loadUhalf
  | .beq => branchPlain env i fun a b => a = b
  | .bne => branchPlain env i fun a b => a ≠ b
  | .blt => branchPlain env i fun a b => a.slt b
  | .bge => branchPlain env i fun a b => !a.slt b
  | .bltu => branchPlain env i fun a b => a < b
  | .bgeu => branchPlain env i fun a b => b ≤ a
  | .csrrw => csrWritePlain env i (reg i.rs1)
  | .csrrs => csrChangePlain env i (i.rs1 ≠ 0) (reg i.rs1) (· ||| ·)
  | .csrrc => csrChangePlain env i (i.rs1 ≠ 0) (reg i.rs1) fun a b => a &&& ~~~b
  | .csrrwi => csrWritePlain env i (pure (i.zimm.setWidth 32))
  | .csrrsi => csrChangePlain env i (i.zimm ≠ 0) (pure (i.zimm.setWidth 32)) (· ||| ·)
  | .csrrci => csrChangePlain env i (i.zimm ≠ 0) (pure (i.zimm.setWidth 32)) fun a b => a &&& ~~~b
  | .mul => mulPlain i mulResult
  | .mulh => mulPlain i mulhResult
  | .mulhu => mulPlain i mulhuResult
  | .mulhsu => mulPlain i mulhsuResult
  | .div => mulPlain i divResult
  | .divu => mulPlain i divuResult
  | .rem => mulPlain i remResult
  | .remu => mulPlain i remuResult
  | .lrW => lrWPlain env i
  | .scW => scWPlain env i
  | op => match amoOperation op with
    | some f => executeAmo env i f
    | none => execShared env i op

/-- `exec_step`. -/
def execStepPlain : M W Unit := do
  fetch env
  let h ← get
  execPlain env h.instr h.op

end Plain

/-! ### Computations that charge cycles -/

/-- A member function of `ISS` in the `PIPELINE_TIMING` build. -/
abbrev PM (W : Type) := EStateM Raise (TimedHart W)

/-- A computation that does not touch the pipeline timing model. -/
def lift (m : M W α) : PM W α := fun t =>
  match m t.hart with
  | .ok a h => .ok a { t with hart := h }
  | .error e h => .error e { t with hart := h }

theorem lift_of_ok {m : M W α} {t : TimedHart W} {a : α} {h : Hart W} (hm : m t.hart = .ok a h) :
    lift m t = .ok a { t with hart := h } := by
  unfold lift
  rw [hm]

theorem lift_of_error {m : M W α} {t : TimedHart W} {e : Raise} {h : Hart W}
    (hm : m t.hart = .error e h) : lift m t = .error e { t with hart := h } := by
  unfold lift
  rw [hm]

theorem lift_ok {m : M W α} {t t' : TimedHart W} {a : α} (h : lift m t = .ok a t') :
    ∃ h', m t.hart = .ok a h' ∧ t' = { t with hart := h' } := by
  unfold lift at h
  cases hm : m t.hart with
  | ok a' h' =>
    rw [hm] at h
    cases h
    exact ⟨h', rfl, rfl⟩
  | error e h' =>
    rw [hm] at h
    cases h

theorem lift_error {m : M W α} {t t' : TimedHart W} {e : Raise} (h : lift m t = .error e t') :
    ∃ h', m t.hart = .error e h' ∧ t' = { t with hart := h' } := by
  unfold lift at h
  cases hm : m t.hart with
  | ok a' h' =>
    rw [hm] at h
    cases h
  | error e' h' =>
    rw [hm] at h
    cases h
    exact ⟨h', rfl, rfl⟩

/-- A call of the pipeline timing model. -/
def charge (call : Pipeline → Option Pipeline) : PM W Unit := fun t =>
  match call t.pipeline with
  | some p => .ok () { t with pipeline := p }
  | none => .error .assertion t

theorem charge_of_some {call : Pipeline → Option Pipeline} {t : TimedHart W} {p : Pipeline}
    (hp : call t.pipeline = some p) : charge call t = .ok () { t with pipeline := p } := by
  unfold charge
  rw [hp]

theorem charge_of_none {call : Pipeline → Option Pipeline} {t : TimedHart W}
    (hp : call t.pipeline = none) : charge call t = .error .assertion t := by
  unfold charge
  rw [hp]

theorem charge_hart {call : Pipeline → Option Pipeline} {t t' : TimedHart W} {u : Unit}
    (h : charge call t = .ok u t') : t'.hart = t.hart := by
  cases hp : call t.pipeline with
  | some p =>
    rw [charge_of_some hp] at h
    cases h
    rfl
  | none =>
    rw [charge_of_none hp] at h
    cases h

theorem charge_error {call : Pipeline → Option Pipeline} {t t' : TimedHart W} {e : Raise}
    (h : charge call t = .error e t') : e = .assertion ∧ t' = t := by
  cases hp : call t.pipeline with
  | some p =>
    rw [charge_of_some hp] at h
    cases h
  | none =>
    rw [charge_of_none hp] at h
    cases h
    exact ⟨rfl, rfl⟩

/-- `pipeline.access_register(r)`: the instruction waits for a pending result. -/
def accessRegister (r : RegIdx) : PM W Unit := charge fun p => p.accessRegister r.toNat

/-- `read(r)`. -/
def read (r : RegIdx) : PM W Word := do
  accessRegister r
  lift (reg r)

/-- The same bits, taken as unsigned. -/
def uRead (r : RegIdx) : PM W Word := read r

/-- `shamt(r)`, the amount of a shift. -/
def shamt (r : RegIdx) : PM W ℕ := do
  accessRegister r
  lift (regShamt r)

/-- `write(r, v)`. -/
def write (r : RegIdx) (v : Word) : PM W Unit := do
  accessRegister r
  lift (setReg r v)

/-! ### With `PIPELINE_TIMING` -/

section Pipelined

variable (env : Env W) (i : Instruction)

/-- The register-immediate operations on signed values. -/
def opImmPipeline (f : Word → Word → Word) : PM W Unit := do
  write i.rd (f (← read i.rs1) i.iImm)

/-- The same with `u_read`. -/
def uOpImmPipeline (f : Word → Word → Word) : PM W Unit := do
  write i.rd (f (← uRead i.rs1) i.iImm)

/-- The register-register operations on signed values. -/
def opPipeline (f : Word → Word → Word) : PM W Unit := do
  let a ← read i.rs1
  let b ← read i.rs2
  write i.rd (f a b)

/-- The same with `u_read`. -/
def uOpPipeline (f : Word → Word → Word) : PM W Unit := do
  let a ← uRead i.rs1
  let b ← uRead i.rs2
  write i.rd (f a b)

/-- A shift of a signed value by the low five bits of `rs2`. -/
def shiftPipeline (f : Word → ℕ → Word) : PM W Unit := do
  let a ← read i.rs1
  let s ← shamt i.rs2
  write i.rd (f a s)

/-- The same with `u_read`. -/
def uShiftPipeline (f : Word → ℕ → Word) : PM W Unit := do
  let a ← uRead i.rs1
  let s ← shamt i.rs2
  write i.rd (f a s)

/-- A shift of a signed value by the amount in the instruction. -/
def shiftImmPipeline (f : Word → ℕ → Word) : PM W Unit := do
  write i.rd (f (← read i.rs1) i.shamt.toNat)

/-- The same with `u_read`. -/
def uShiftImmPipeline (f : Word → ℕ → Word) : PM W Unit := do
  write i.rd (f (← uRead i.rs1) i.shamt.toNat)

/-- `LUI`. -/
def luiPipeline : PM W Unit := write i.rd i.uImm

/-- `AUIPC`, relative to the address of the instruction. -/
def auipcPipeline : PM W Unit := do
  let t ← get
  write i.rd (t.hart.lastPc + i.uImm)

/-- `JAL`: the target is checked before the link register is written. -/
def jalPipeline : PM W Unit := do
  let t ← get
  lift (setPc (t.hart.lastPc + i.jImm))
  lift (trapCheckPcAlignment env)
  write i.rd t.hart.pc

/-- The base register is read without `read`. -/
def jalrPipeline : PM W Unit := do
  let t ← get
  lift (setPc ((t.hart.regs i.rs1 + i.iImm) &&& ~~~1))
  lift (trapCheckPcAlignment env)
  write i.rd t.hart.pc

/-- The stores: the range that is written stays reserved for a cycle. -/
def storePipeline (size : ℕ) (check : Word → M W Unit) (f : Word → Word → Access W Unit) :
    PM W Unit := do
  let addr := (← read i.rs1) + i.sImm
  lift (check addr)
  let v ← read i.rs2
  lift (access (f addr v))
  charge fun p => some (p.reserveStore ⟨addr, addr + BitVec.ofNat 32 size⟩ 1)

/-- The loads: `rd` is pending for two cycles, or more where the range overlaps a reserved one. -/
def loadPipeline (size : ℕ) (check : Word → M W Unit) (f : Word → Access W Word) : PM W Unit := do
  let addr := (← read i.rs1) + i.iImm
  lift (check addr)
  let v ← lift (access (f addr))
  write i.rd v
  charge fun p => p.doLoad ⟨addr, addr + BitVec.ofNat 32 size⟩ i.rd.toNat 2

/-- A branch on signed values. -/
def branchPipeline (c : Word → Word → Bool) : PM W Unit := do
  let a ← read i.rs1
  let b ← read i.rs2
  if c a b then lift (takeBranch env i) else pure ()

/-- The same with `u_read`. -/
def uBranchPipeline (c : Word → Word → Bool) : PM W Unit := do
  let a ← uRead i.rs1
  let b ← uRead i.rs2
  if c a b then lift (takeBranch env i) else pure ()

/-- `if (rd != RegFile::zero) { write(rd, value); pipeline.do_csr(rd); }`. -/
def setRdPipeline (value : Word) : PM W Unit :=
  if i.rd ≠ 0 then do
    write i.rd value
    charge fun p => p.doCsr i.rd.toNat
  else pure ()

/-- `get_csr_value(addr)`, where a read of the counters takes the cycles of the timing model. -/
def csrValuePipeline (addr : CsrAddr) : PM W Word := do
  let t ← get
  lift (getCsrValue env (pure t.pipeline.numTotalCycles) addr)

/-- `if (rd != RegFile::zero) { write(rd, get_csr_value(addr)); pipeline.do_csr(rd); }`. -/
def csrToRdPipeline : PM W Unit :=
  if i.rd ≠ 0 then do
    write i.rd (← csrValuePipeline env i.csr)
    charge fun p => p.doCsr i.rd.toNat
  else pure ()

/-- The CSR instructions that write a given value. -/
def csrWritePipeline (value : PM W Word) : PM W Unit := do
  if ← lift (isInvalidCsrAccess i.csr true) then lift raiseIllegalInstruction
  else do
    let v ← value
    csrToRdPipeline env i
    lift (setCsrValue env i.csr v)

/-- `checked` is what the access check is told, `write` whether the instruction writes. -/
def csrChangePipeline (checked write : Bool) (value : PM W Word) (f : Word → Word → Word) :
    PM W Unit := do
  if ← lift (isInvalidCsrAccess i.csr checked) then lift raiseIllegalInstruction
  else do
    let v ← value
    let csrVal ← csrValuePipeline env i.csr
    setRdPipeline i csrVal
    if write then lift (setCsrValue env i.csr (f csrVal v)) else pure ()

/-- The multiplications; `pipeline.do_mult(rd, a, b)` reserves the unit. -/
def mulPipeline (f : Word → Word → Word) : PM W Unit := do
  lift (requireIsa .m)
  let a ← read i.rs1
  let b ← read i.rs2
  write i.rd (f a b)
  charge fun p => p.doMult i.rd.toNat a b

/-- The product is computed from the registers themselves. -/
def mulhsuPipeline : PM W Unit := do
  lift (requireIsa .m)
  let a ← read i.rs1
  let b ← read i.rs2
  let t ← get
  write i.rd (mulhsuResult (t.hart.regs i.rs1) (t.hart.regs i.rs2))
  charge fun p => p.doMult i.rd.toNat a b

/-- The divisions; `pipeline.do_div(rd, a, b)` reserves the unit. -/
def divPipeline (f : Word → Word → Word) : PM W Unit := do
  lift (requireIsa .m)
  let a ← read i.rs1
  let b ← read i.rs2
  write i.rd (f a b)
  charge fun p => p.doDiv i.rd.toNat a b

/-- `LR.W`: the window begins again, also where one is open. -/
def lrWPipeline : PM W Unit := do
  lift (requireIsa .a)
  let addr ← read i.rs1
  lift (trapCheckAddrAlignment env 4 true addr)
  let v ← lift (access (env.atomicLoadReservedWord addr))
  write i.rd v
  lift (setLrScCounter 17)
  charge fun p => p.doLoad ⟨addr, addr + 4⟩ i.rd.toNat 2

/-- `SC.W`: the window ends. -/
def scWPipeline : PM W Unit := do
  lift (requireIsa .a)
  let addr ← read i.rs1
  lift (trapCheckAddrAlignment env 4 false addr)
  let val ← read i.rs2
  -- failure by default, in case a trap is thrown
  write i.rd 1
  let stored ← lift (access (env.atomicStoreConditionalWord addr val))
  write i.rd (if stored then 0 else 1)
  lift (setLrScCounter 0)

/-- `execute_amo`, with the cycles it charges. -/
def executeAmoPipeline (f : Word → Word → Word) : PM W Unit := do
  lift (executeAmo env i f)
  charge fun p => some (env.amoCharge i p)

/-- `pipeline.advance(cycles-1)`. -/
def advanceNice (op : Op) : PM W Unit := do
  let t ← get
  charge fun p => p.advance ((niceUart t.hart op).cycles.toNat - 1)

/-- The custom instructions, of which the calls of the coprocessor charge its cycles. -/
def custom3Pipeline : PM W Unit :=
  match custom3Case env i with
  | none => pure ()
  | some .add => opPipeline i (· + ·)
  | some (.nice .sm3p0) => do
      let a ← read i.rs1
      write i.rd (← lift (niceCall env .sm3p0 a 0))
      advanceNice .sm3p0
  | some (.nice .sm3p1) => do
      let a ← read i.rs1
      write i.rd (← lift (niceCall env .sm3p1 a 0))
      advanceNice .sm3p1
  | some (.nice .sm4ks) => do
      let a ← read i.rs1
      let b ← read i.rs2
      write i.rd (← lift (niceCall env .sm4ks a b))
      advanceNice .sm4ks
  | some (.nice .sm4ed) => do
      let a ← read i.rs1
      let b ← read i.rs2
      write i.rd (← lift (niceCall env .sm4ed a b))
      advanceNice .sm4ed
  | some (.software op) => do write i.rd (op.eval (← read i.rs1))

/-- The switch over the opcodes. -/
def execPipeline : Opcode → PM W Unit
  | .custom3 => if env.nice.niceCore then custom3Pipeline env i else lift unknownOpcode
  | .addi => opImmPipeline i (· + ·)
  | .slti => opImmPipeline i fun a b => ofBool (a.slt b)
  | .sltiu => uOpImmPipeline i fun a b => ofBool (a < b)
  | .xori => opImmPipeline i (· ^^^ ·)
  | .ori => opImmPipeline i (· ||| ·)
  | .andi => opImmPipeline i (· &&& ·)
  | .add => opPipeline i (· + ·)
  | .sub => opPipeline i (· - ·)
  | .sll => shiftPipeline i fun a s => a <<< s
  | .slt => opPipeline i fun a b => ofBool (a.slt b)
  | .sltu => uOpPipeline i fun a b => ofBool (a < b)
  | .srl => uShiftPipeline i fun a s => a >>> s
  | .sra => shiftPipeline i fun a s => a.sshiftRight s
  | .xor => opPipeline i (· ^^^ ·)
  | .or => opPipeline i (· ||| ·)
  | .and => opPipeline i (· &&& ·)
  | .slli => shiftImmPipeline i fun a s => a <<< s
  | .srli => uShiftImmPipeline i fun a s => a >>> s
  | .srai => shiftImmPipeline i fun a s => a.sshiftRight s
  | .lui => luiPipeline i
  | .auipc => auipcPipeline i
  | .jal => jalPipeline env i
  | .jalr => jalrPipeline env i
  | .sb => storePipeline i 1 noCheck fun addr v => env.storeByte addr (v.setWidth 8)
  | .sh => storePipeline i 2 (trapCheckAddrAlignment env 2 false) fun addr v =>
      env.storeHalf addr (v.setWidth 16)
  | .sw => storePipeline i 4 (trapCheckAddrAlignment env 4 false) env.storeWord
  | .lb => loadPipeline i 1 noCheck env.loadByte
  | .lh => loadPipeline i 2 (trapCheckAddrAlignment env 2 true) env.loadHalf
  | .lw => loadPipeline i 4 (trapCheckAddrAlignment env 4 true) env.loadWord
  | .lbu => loadPipeline i 1 noCheck env.loadUbyte
  | .lhu => loadPipeline i 2 (trapCheckAddrAlignment env 2 true) env.loadUhalf
  | .beq => branchPipeline env i fun a b => a = b
  | .bne => branchPipeline env i fun a b => a ≠ b
  | .blt => branchPipeline env i fun a b => a.slt b
  | .bge => branchPipeline env i fun a b => !a.slt b
  | .bltu => uBranchPipeline env i fun a b => a < b
  | .bgeu => uBranchPipeline env i fun a b => b ≤ a
  | .csrrw => csrWritePipeline env i (read i.rs1)
  | .csrrs => csrChangePipeline env i (i.rs1 ≠ 0) (i.rs1 ≠ 0) (read i.rs1) (· ||| ·)
  | .csrrc => csrChangePipeline env i (i.rs1 ≠ 0) (i.rs1 ≠ 0) (read i.rs1) fun a b => a &&& ~~~b
  | .csrrwi => csrWritePipeline env i (pure (i.zimm.setWidth 32))
  | .csrrsi => csrChangePipeline env i true (i.zimm ≠ 0) (pure (i.zimm.setWidth 32)) (· ||| ·)
  | .csrrci => csrChangePipeline env i true (i.zimm ≠ 0) (pure (i.zimm.setWidth 32))
      fun a b => a &&& ~~~b
  | .mul => mulPipeline i mulResult
  | .mulh => mulPipeline i mulhResult
  | .mulhu => mulPipeline i mulhuResult
  | .mulhsu => mulhsuPipeline i
  | .div => divPipeline i divResult
  | .divu => divPipeline i divuResult
  | .rem => divPipeline i remResult
  | .remu => divPipeline i remuResult
  | .lrW => lrWPipeline env i
  | .scW => scWPipeline env i
  | op => match amoOperation op with
    | some f => executeAmoPipeline env i f
    | none => lift (execShared env i op)

/-- `exec_step`. -/
def execStepPipeline : PM W Unit := do
  lift (fetch env)
  let t ← get
  execPipeline env t.hart.instr t.hart.op

end Pipelined

/-- The two texts of the simulator, without and with `PIPELINE_TIMING`. -/
inductive Build
  | plain
  | pipeline
  deriving DecidableEq, Repr

section

variable (env : Env W) (b : Build)

/-- The switch of a build. -/
def exec (i : Instruction) (op : Opcode) : PM W Unit :=
  match b with
  | .plain => lift (execPlain env i op)
  | .pipeline => execPipeline env i op

/-- `exec_step` of a build. -/
def execStep : PM W Unit :=
  match b with
  | .plain => lift (execStepPlain env)
  | .pipeline => execStepPipeline env

/-- Both builds fetch and decode, and then execute. -/
theorem execStep_eq (t : TimedHart W) :
    execStep env b t = match fetch env t.hart with
      | .ok _ h => exec env b h.instr h.op { t with hart := h }
      | .error e h => .error e { t with hart := h } := by
  cases b with
  | plain =>
    show lift (execStepPlain env) t = _
    simp only [lift, execStepPlain, bind, EStateM.bind]
    cases fetch env t.hart <;> rfl
  | pipeline =>
    show execStepPipeline env t = _
    simp only [lift, execStepPipeline, bind, EStateM.bind]
    cases fetch env t.hart <;> rfl

theorem execStep_of_fetch {t : TimedHart W} {h : Hart W} (hf : fetch env t.hart = .ok () h) :
    execStep env b t = exec env b h.instr h.op { t with hart := h } := by
  rw [execStep_eq, hf]

end

end Vcil.Iss
