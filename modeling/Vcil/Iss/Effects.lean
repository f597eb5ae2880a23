import Vcil.Iss.Frames

/-!
# What kinds of instructions can change

Every instruction can change the registers, `pc` and the platform; only some touch the CSRs, the
floating-point state or the LR/SC window.

* `IsFloat`, `IsWindow`: the kinds that do, with `IsCsr`;
* `respects_exec_kind`: an instruction respects a relation that allows for the changes of its kind;
* `catchTrap`, `deliverInterrupt`, `returnFromTrapHandler` respect what a `HandlerFrame` allows for.
-/

-- a case is a chain of ten calls, each an instance
set_option synthInstance.maxSize 512

namespace Vcil.Iss

open Fallible
open Timing (Pipeline)

variable {W α β : Type}

/-! ### Kinds -/

/-- The instructions of the extensions `F` and `D`. -/
def IsFloat : Opcode → Bool
  | .flw | .fsw | .faddS | .fsubS | .fmulS | .fdivS | .fsqrtS | .fminS | .fmaxS | .fmaddS | .fmsubS
  | .fnmaddS | .fnmsubS | .fcvtWS | .fcvtWuS | .fcvtSW | .fcvtSWu | .fsgnjS | .fsgnjnS | .fsgnjxS
  | .fmvWX | .fmvXW | .feqS | .fltS | .fleS | .fclassS
  | .fld | .fsd | .faddD | .fsubD | .fmulD | .fdivD | .fsqrtD | .fminD | .fmaxD | .fmaddD | .fmsubD
  | .fnmaddD | .fnmsubD | .fsgnjD | .fsgnjnD | .fsgnjxD | .fcvtSD | .fcvtDS | .feqD | .fltD | .fleD
  | .fclassD | .fcvtWD | .fcvtWuD | .fcvtDW | .fcvtDWu => true
  | _ => false

/-- The instructions that open or close the LR/SC window. -/
def IsWindow (op : Opcode) : Prop := op = .lrW ∨ op = .scW ∨ op = .wfi

/-! ### Integer instructions -/

section Integer

variable {R : Hart W → Hart W → Prop} [IntegerFrame R]

instance (f : α → β) {m : M W α} [Respects R m] : Respects R (f <$> m) := by
  rw [map_eq_pure_bind]
  infer_instance

instance (r : RegIdx) : Respects R (regShamt r : M W ℕ) := by
  unfold regShamt
  infer_instance

instance : Respects R (ebreak : M W Unit) := .modify fun h => IntegerFrame.status h _

instance (pc : Word) : Respects R (setPc pc : M W Unit) := .modify fun h => IntegerFrame.pc h _

instance (env : Env W) (i : Instruction) : Respects R (takeBranch env i) := by
  have : Respects R (modify fun h => { h with pc := h.lastPc + i.bImm } : M W Unit) :=
    .modify fun h => IntegerFrame.pc h _
  unfold takeBranch
  infer_instance

instance : Respects R (ecallTrap : M W Unit) := by
  unfold ecallTrap unknownPrivilegeLevel
  infer_instance

instance (env : Env W) : Respects R (ecall env) := by
  unfold ecall
  split
  · have (r : (RegIdx → Word) × Bool) : Respects R (modify fun h =>
      { h with regs := r.1, shallExit := h.shallExit || r.2 } : M W Unit) :=
      .modify fun h => trans_of R (IntegerFrame.regs h r.1) (IntegerFrame.shallExit _ _)
    unfold syscall
    infer_instance
  · infer_instance

instance (env : Env W) (i : Instruction) (f : Word → Word → Word) :
    Respects R (executeAmo env i f) := by
  have (regs : RegIdx → Word) : Respects R (modify fun h => { h with regs := regs } : M W Unit) :=
    .modify fun h => IntegerFrame.regs h _
  unfold executeAmo
  infer_instance

instance (env : Env W) : Respects R (sfenceVma env) := by
  unfold sfenceVma
  infer_instance

instance (env : Env W) [WindowFrame R] : Respects R (wfi env) := by
  unfold wfi
  infer_instance

end Integer

/-! ### Bookkeeping -/

section Bookkeeping

variable {R : Hart W → Hart W → Prop} [IntegerFrame R] (env : Env W)

instance [WindowFrame R] : Respects R (countLrSc env) := by
  unfold countLrSc
  infer_instance

instance (time : ℕ) : Respects R (advanceQuantum env time) := by
  unfold advanceQuantum
  infer_instance

end Bookkeeping

/-! ### Floating-point instructions -/

section Float

variable {R : Hart W → Hart W → Prop} [IntegerFrame R] [FloatFrame R] {n : ℕ} (u : SoftFloat n)

instance (f : BitField) (v : BitVec f.len) : Respects R (setMstatus f v : M W Unit) :=
  .modify fun h => FloatFrame.mstatus h _

instance (flags : Byte) : Respects R (setExceptionFlags flags : M W Unit) :=
  .modify fun h => FloatFrame.exceptionFlags h _

instance : Respects R (fpSetDirty : M W Unit) := by
  unfold fpSetDirty
  infer_instance

instance : Respects R (fpUpdateExceptionFlags : M W Unit) := by
  have (flags : Byte) : Respects R (setCsrs fun c =>
      { c with fcsr := Fcsr.fflags.put (Fcsr.fflags.get c.fcsr ||| flags.setWidth 5) c.fcsr } :
      M W Unit) := .modify fun h => FloatFrame.fcsr h _
  unfold fpUpdateExceptionFlags
  infer_instance

instance : Respects R (fpFinishInstr : M W Unit) := by
  unfold fpFinishInstr
  infer_instance

instance : Respects R (fpPrepareInstr : M W Unit) := by
  unfold fpPrepareInstr fpRequireNotOff
  infer_instance

instance : Respects R (fpSetupRm : M W Unit) := by
  have : Respects R (modify fun h => { h with softfloatRoundingMode := roundingMode h } :
    M W Unit) := .modify fun h => FloatFrame.roundingMode h _
  unfold fpSetupRm
  infer_instance

instance (f : BitVec 3 → α × Byte) : Respects R (softfloat f : M W α) := by
  unfold softfloat
  infer_instance

instance (r : RegIdx) : Respects R (fpReg u r : M W (BitVec n)) := by
  unfold fpReg
  infer_instance

instance (r : RegIdx) (v : BitVec n) : Respects R (fpWrite u r v : M W Unit) :=
  .modify fun h => FloatFrame.fpRegs h _

instance (a b : BitVec n) : Respects R (fpBefore u a b : M W Bool) := by
  unfold fpBefore
  infer_instance

variable (x : IsaExt) (i : Instruction)

instance (f : BitVec 3 → BitVec n → BitVec n → BitVec n × Byte) :
    Respects R (fpBinary x u i f : M W Unit) := by
  unfold fpBinary
  infer_instance

instance : Respects R (fpSqrt x u i : M W Unit) := by
  unfold fpSqrt
  infer_instance

instance (f1 f3 : BitVec n → BitVec n) : Respects R (fpFused x u i f1 f3 : M W Unit) := by
  unfold fpFused
  infer_instance

instance (first : BitVec n → BitVec n → M W Bool) [∀ a b, Respects R (first a b)] :
    Respects R (fpSelect x u i first) := by
  unfold fpSelect
  infer_instance

instance (f : BitVec n → BitVec 3 → Bool → Word × Byte) :
    Respects R (fpToInt x u i f : M W Unit) := by
  unfold fpToInt
  infer_instance

instance (f : BitVec 3 → Word → BitVec n × Byte) : Respects R (fpOfInt x u i f : M W Unit) := by
  unfold fpOfInt
  infer_instance

instance {m : ℕ} (v : SoftFloat m) (f : BitVec 3 → BitVec m → BitVec n × Byte) :
    Respects R (fpConvert x u i v f : M W Unit) := by
  unfold fpConvert
  infer_instance

instance (f : BitVec n → BitVec n → BitVec n) : Respects R (fpSign x u i f : M W Unit) := by
  unfold fpSign
  infer_instance

instance (f : BitVec n → BitVec n → Bool × Byte) : Respects R (fpCompare x u i f : M W Unit) := by
  unfold fpCompare
  infer_instance

instance : Respects R (fpClass x u i : M W Unit) := by
  unfold fpClass
  infer_instance

instance (env : Env W) (op : Opcode) : Respects R (execFloat env i op) := by
  unfold execFloat
  split <;> first
    | infer_instance
    | unfold flw; infer_instance
    | unfold fsw; infer_instance
    | unfold fld; infer_instance
    | unfold fsd; infer_instance
    | unfold fmvWX; infer_instance
    | unfold fmvXW; infer_instance

end Float

/-! ### CSR accesses -/

section Csr

variable {R : Hart W → Hart W → Prop} [IntegerFrame R] (env : Env W)

instance (addr : CsrAddr) (isWrite : Bool) :
    Respects R (isInvalidCsrAccess addr isWrite : M W Bool) := by
  unfold isInvalidCsrAccess
  infer_instance

instance (addr : CsrAddr) : Respects R (validateCsrCounterReadAccessRights addr : M W Unit) := by
  unfold validateCsrCounterReadAccessRights
  infer_instance

instance (f : Csrs → Word) : Respects R (readCsrs f : M W Word) := by
  unfold readCsrs
  infer_instance

instance (addr : CsrAddr) : Respects R (readDefault env addr) := by
  unfold readDefault
  infer_instance

instance : Respects R (computeAndGetCurrentCycles : M W (BitVec 64)) := by
  unfold computeAndGetCurrentCycles
  infer_instance

variable [CounterFrame R]

instance : Respects R (readTime env) := by
  have (time : BitVec 64) : Respects R (setCsrs fun c => { c with time := time } : M W Unit) :=
    .modify fun h => CounterFrame.time h time
  unfold readTime
  infer_instance

instance (m : M W (BitVec 64)) [Respects R m] : Respects R (readCycle m) := by
  have (cycle : BitVec 64) : Respects R (setCsrs fun c => { c with cycle := cycle } : M W Unit) :=
    .modify fun h => CounterFrame.cycle h cycle
  unfold readCycle
  infer_instance

instance (m : M W (BitVec 64)) [Respects R m] (addr : CsrAddr) :
    Respects R (getCsrValue env m addr) := by
  unfold getCsrValue
  cases csrName env addr <;> infer_instance

instance [CsrFrame R] (addr : CsrAddr) (value : Word) :
    Respects R (setCsrValue env addr value) := by
  unfold setCsrValue
  cases csrName env addr <;> infer_instance

end Csr

/-! ### Both builds -/

section Timed

variable {S : TimedHart W → TimedHart W → Prop} {R : Hart W → Hart W → Prop} [IntegerFrame R]

instance (call : Pipeline → Option Pipeline) : Respects (OnHart R) (charge call : PM W Unit) := by
  constructor
  intro t
  unfold charge
  cases call t.pipeline <;> exact refl_of R t.hart

instance (r : RegIdx) : Respects (OnHart R) (accessRegister r : PM W Unit) := by
  unfold accessRegister
  infer_instance

instance (r : RegIdx) : Respects (OnHart R) (read r : PM W Word) := by
  unfold read
  infer_instance

instance (r : RegIdx) : Respects (OnHart R) (uRead r : PM W Word) := by
  unfold uRead
  infer_instance

instance (r : RegIdx) : Respects (OnHart R) (shamt r : PM W ℕ) := by
  unfold shamt
  infer_instance

instance (r : RegIdx) (v : Word) : Respects (OnHart R) (write r v : PM W Unit) := by
  unfold write
  infer_instance

end Timed

section Builds

variable {R : Hart W → Hart W → Prop} [IntegerFrame R] (env : Env W) (i : Instruction) {op : Opcode}

theorem respects_execShared (hop : ¬IsReturn op) (hfloat : IsFloat op = true → FloatFrame R)
    (hwindow : IsWindow op → WindowFrame R) : Respects R (execShared env i op) := by
  have hfp : Respects R (execFloat env i op) := by
    by_cases hfp : IsFloat op = true
    · have := hfloat hfp
      infer_instance
    · unfold execFloat
      split <;> first
        | exact absurd rfl hfp
        | infer_instance
  unfold execShared
  split <;> first
    | infer_instance
    | (have hframe := hwindow (by simp [IsWindow]); infer_instance)
    | exact absurd (by simp [IsReturn]) hop

/-! Without `PIPELINE_TIMING`. -/

instance (addr : Word) : Respects R (noCheck addr : M W Unit) := by
  unfold noCheck
  infer_instance

instance (f : Word → Word → Word) : Respects R (opPlain i f : M W Unit) := by
  unfold opPlain
  infer_instance

instance (check : Word → M W Unit) [∀ addr, Respects R (check addr)]
    (f : Word → Word → Access W Unit) : Respects R (storePlain i check f) := by
  unfold storePlain
  infer_instance

instance (check : Word → M W Unit) [∀ addr, Respects R (check addr)] (f : Word → Access W Word) :
    Respects R (loadPlain i check f) := by
  unfold loadPlain
  infer_instance

instance [CsrFrame R] (value : M W Word) [Respects R value] :
    Respects R (csrWritePlain env i value) := by
  unfold csrWritePlain csrToRdPlain csrValuePlain
  infer_instance

instance [CsrFrame R] (w : Bool) (value : M W Word) [Respects R value] (f : Word → Word → Word) :
    Respects R (csrChangePlain env i w value f) := by
  unfold csrChangePlain setRdPlain csrValuePlain
  infer_instance

instance : Respects R (unknownOpcode : M W Unit) := by
  unfold unknownOpcode
  infer_instance

instance : Respects R (custom3Plain env i) := by
  unfold custom3Plain
  split <;> infer_instance

theorem respects_execPlain (hop : ¬IsReturn op) (hcsr : IsCsr op → CsrFrame R)
    (hfloat : IsFloat op = true → FloatFrame R) (hwindow : IsWindow op → WindowFrame R) :
    Respects R (execPlain env i op) := by
  have hshared := respects_execShared env i hop hfloat hwindow
  unfold execPlain
  split <;> first
    | infer_instance
    | unfold opImmPlain; infer_instance
    | unfold shiftPlain; infer_instance
    | unfold shiftImmPlain; infer_instance
    | unfold luiPlain; infer_instance
    | unfold auipcPlain; infer_instance
    | unfold jalPlain; infer_instance
    | unfold jalrPlain; infer_instance
    | unfold branchPlain; infer_instance
    | unfold mulPlain; infer_instance
    | (have hframe := hcsr (by simp [IsCsr]); infer_instance)
    | (have hframe := hwindow (by simp [IsWindow]); unfold lrWPlain; infer_instance)
    | (have hframe := hwindow (by simp [IsWindow]); unfold scWPlain; infer_instance)
    | (split <;> infer_instance)

/-! With it. -/

instance (f : Word → Word → Word) : Respects (OnHart R) (opPipeline i f : PM W Unit) := by
  unfold opPipeline
  infer_instance

instance (op : Op) : Respects (OnHart R) (advanceNice op : PM W Unit) := by
  unfold advanceNice
  infer_instance

instance (size : ℕ) (check : Word → M W Unit) [∀ addr, Respects R (check addr)]
    (f : Word → Word → Access W Unit) : Respects (OnHart R) (storePipeline i size check f) := by
  unfold storePipeline
  infer_instance

instance (size : ℕ) (check : Word → M W Unit) [∀ addr, Respects R (check addr)]
    (f : Word → Access W Word) : Respects (OnHart R) (loadPipeline i size check f) := by
  unfold loadPipeline
  infer_instance

instance [CounterFrame R] (addr : CsrAddr) : Respects (OnHart R) (csrValuePipeline env addr) := by
  unfold csrValuePipeline
  infer_instance

instance [CsrFrame R] (value : PM W Word) [Respects (OnHart R) value] :
    Respects (OnHart R) (csrWritePipeline env i value) := by
  unfold csrWritePipeline csrToRdPipeline
  infer_instance

instance [CsrFrame R] (checked w : Bool) (value : PM W Word) [Respects (OnHart R) value]
    (f : Word → Word → Word) : Respects (OnHart R) (csrChangePipeline env i checked w value f) := by
  unfold csrChangePipeline setRdPipeline
  infer_instance

instance (f : Word → Word → Word) : Respects (OnHart R) (executeAmoPipeline env i f) := by
  unfold executeAmoPipeline
  infer_instance

instance : Respects (OnHart R) (custom3Pipeline env i) := by
  unfold custom3Pipeline
  split <;> infer_instance

theorem respects_execPipeline (hop : ¬IsReturn op) (hcsr : IsCsr op → CsrFrame R)
    (hfloat : IsFloat op = true → FloatFrame R) (hwindow : IsWindow op → WindowFrame R) :
    Respects (OnHart R) (execPipeline env i op) := by
  have hshared := respects_execShared env i hop hfloat hwindow
  unfold execPipeline
  split <;> first
    | infer_instance
    | unfold opImmPipeline; infer_instance
    | unfold uOpImmPipeline; infer_instance
    | unfold uOpPipeline; infer_instance
    | unfold shiftPipeline; infer_instance
    | unfold uShiftPipeline; infer_instance
    | unfold shiftImmPipeline; infer_instance
    | unfold uShiftImmPipeline; infer_instance
    | unfold luiPipeline; infer_instance
    | unfold auipcPipeline; infer_instance
    | unfold jalPipeline; infer_instance
    | unfold jalrPipeline; infer_instance
    | unfold branchPipeline; infer_instance
    | unfold uBranchPipeline; infer_instance
    | unfold mulPipeline; infer_instance
    | unfold mulhsuPipeline; infer_instance
    | unfold divPipeline; infer_instance
    | (have hframe := hcsr (by simp [IsCsr]); infer_instance)
    | (have hframe := hwindow (by simp [IsWindow]); unfold lrWPipeline; infer_instance)
    | (have hframe := hwindow (by simp [IsWindow]); unfold scWPipeline; infer_instance)
    | (split <;> infer_instance)

/-- An instruction other than a return changes what its kind can change. -/
theorem respects_exec_kind (b : Build) (hop : ¬IsReturn op) (hcsr : IsCsr op → CsrFrame R)
    (hfloat : IsFloat op = true → FloatFrame R) (hwindow : IsWindow op → WindowFrame R) :
    Respects (OnHart R) (exec env b i op) := by
  cases b with
  | plain =>
    have := respects_execPlain env i hop hcsr hfloat hwindow
    exact inferInstanceAs (Respects (OnHart R) (lift (execPlain env i op)))
  | pipeline => exact respects_execPipeline env i hop hcsr hfloat hwindow

end Builds

/-! ### Traps -/

section Handlers

variable {R : Hart W → Hart W → Prop} [HandlerFrame R]

theorem respects_handlerCsrs {f : Csrs → Csrs} (hf : ∀ c, f c = { c with
      mstatus := (f c).mstatus, mepc := (f c).mepc, mcause := (f c).mcause, mtval := (f c).mtval,
      sepc := (f c).sepc, scause := (f c).scause, stval := (f c).stval, uepc := (f c).uepc,
      ucause := (f c).ucause, utval := (f c).utval }) : Respects R (setCsrs f) := by
  refine .modify fun h => ?_
  rw [hf]
  exact HandlerFrame.csrs ..

theorem respects_handlerMstatus (f : BitField) (v : BitVec f.len) :
    Respects R (setMstatus f v : M W Unit) :=
  respects_handlerCsrs fun _ => rfl

instance (prv : PrivilegeLevel) : Respects R (setPrv prv : M W Unit) :=
  .modify fun h => HandlerFrame.prv h prv

variable [IntegerFrame R]

instance (mode : PrivilegeLevel) : Respects R (unknownPrivilegeLevel mode : M W Unit) := by
  unfold unknownPrivilegeLevel
  infer_instance

theorem respects_prepareTrap (e : SimulationTrap) : Respects R (prepareTrap e : M W _) := by
  have hpc : Respects R (modify fun h => { h with pc := h.lastPc } : M W Unit) :=
    .modify fun h => IntegerFrame.pc h _
  have hcast : Respects R (lexicalCast e.mtval : M W Word) := by
    unfold lexicalCast
    infer_instance
  have hmcause : Respects R (setCsrs fun c => { c with mcause := causeOf 0 e.reason c.mcause }) :=
    respects_handlerCsrs fun _ => rfl
  have hscause : Respects R (setCsrs fun c => { c with scause := causeOf 0 e.reason c.scause }) :=
    respects_handlerCsrs fun _ => rfl
  have hucause : Respects R (setCsrs fun c => { c with ucause := causeOf 0 e.reason c.ucause }) :=
    respects_handlerCsrs fun _ => rfl
  have hmtval (v : Word) : Respects R (setCsrs fun c => { c with mtval := v }) :=
    respects_handlerCsrs fun _ => rfl
  have hstval (v : Word) : Respects R (setCsrs fun c => { c with stval := v }) :=
    respects_handlerCsrs fun _ => rfl
  have hutval (v : Word) : Respects R (setCsrs fun c => { c with utval := v }) :=
    respects_handlerCsrs fun _ => rfl
  have hmachine : Respects R (do
      setCsrs fun c => { c with mcause := causeOf 0 e.reason c.mcause }
      let mtval ← lexicalCast e.mtval
      setCsrs fun c => { c with mtval := mtval }
      return machineMode : M W PrivilegeLevel) := inferInstance
  have hsupervisor : Respects R (do
      setCsrs fun c => { c with scause := causeOf 0 e.reason c.scause }
      let stval ← lexicalCast e.mtval
      setCsrs fun c => { c with stval := stval }
      return supervisorMode : M W PrivilegeLevel) := inferInstance
  unfold prepareTrap
  dsimp only
  infer_instance

theorem respects_prepareInterrupt (x : PendingInterrupts) :
    Respects R (prepareInterrupt x : M W Unit) := by
  have hmcause (exc : ExceptionCode) : Respects R
      (setCsrs fun c => { c with mcause := causeOf 1 exc c.mcause }) :=
    respects_handlerCsrs fun _ => rfl
  have hscause (exc : ExceptionCode) : Respects R
      (setCsrs fun c => { c with scause := causeOf 1 exc c.scause }) :=
    respects_handlerCsrs fun _ => rfl
  have hucause (exc : ExceptionCode) : Respects R
      (setCsrs fun c => { c with ucause := causeOf 1 exc c.ucause }) :=
    respects_handlerCsrs fun _ => rfl
  unfold prepareInterrupt
  cases firstInterrupt x.pending <;> infer_instance

theorem respects_switchToTrapHandler (env : Env W) (mode : PrivilegeLevel) :
    Respects R (switchToTrapHandler env mode) := by
  have hmstatus (f : BitField) (v : BitVec f.len) := respects_handlerMstatus (R := R) f v
  have hmepc (pc : Word) : Respects R (setCsrs fun c => { c with mepc := pc }) :=
    respects_handlerCsrs fun _ => rfl
  have hsepc (pc : Word) : Respects R (setCsrs fun c => { c with sepc := pc }) :=
    respects_handlerCsrs fun _ => rfl
  have huepc (pc : Word) : Respects R (setCsrs fun c => { c with uepc := pc }) :=
    respects_handlerCsrs fun _ => rfl
  have hmachine (pp : PrivilegeLevel) : Respects R (enterMachineMode pp : M W Unit) := by
    unfold enterMachineMode
    infer_instance
  have hsupervisor (pp : PrivilegeLevel) : Respects R (enterSupervisorMode pp : M W Unit) := by
    unfold enterSupervisorMode
    infer_instance
  have huser : Respects R (enterUserMode : M W Unit) := by
    unfold enterUserMode
    infer_instance
  unfold switchToTrapHandler
  infer_instance

theorem respects_catchTrap (env : Env W) (e : Raise) : Respects R (catchTrap env e) := by
  have hprepare (e : SimulationTrap) := respects_prepareTrap (R := R) e
  have hswitch (mode : PrivilegeLevel) := respects_switchToTrapHandler (R := R) env mode
  unfold catchTrap
  cases e <;> infer_instance

theorem respects_deliverInterrupt (env : Env W) : Respects R (deliverInterrupt env) := by
  have hprepare (x : PendingInterrupts) := respects_prepareInterrupt (R := R) x
  have hswitch (mode : PrivilegeLevel) := respects_switchToTrapHandler (R := R) env mode
  constructor
  intro h
  rw [deliverInterrupt_eq]
  cases computePendingInterrupts h with
  | none => exact refl_of R h
  | some x =>
    exact (inferInstance : Respects R (do
      prepareInterrupt x
      switchToTrapHandler env x.targetMode)).rel h

/-- What a step does to the hart, its instruction and a handler do. -/
theorem takeStep_rel {env : Env W} {b : Build} {t t₁ : TimedHart W}
    (hr : takeStep env b t = .ok () t₁) : R (final (execStep env b t)).hart t₁.hart := by
  rcases takeStep_cases hr with ⟨t₂, h₁, hexec, hdeliver, rfl⟩ |
    ⟨t₂, e, h₁, h₂, hexec, hdeliver, hcatch, rfl⟩ | ⟨t₂, e, h₁, hexec, hcatch, rfl⟩
  · rw [hexec]
    exact (respects_deliverInterrupt env).ok hdeliver
  · rw [hexec]
    have hinterrupt := (respects_deliverInterrupt (R := R) env).rel t₂.hart
    rw [hdeliver] at hinterrupt
    exact trans_of R hinterrupt ((respects_catchTrap env e).ok hcatch)
  · rw [hexec]
    exact (respects_catchTrap env e).ok hcatch

end Handlers

end Vcil.Iss
