import Vcil.Iss.CsrInstr
import Vcil.Lib.Script
import Vcil.Timing.BranchPredictor

/-!
# The integer instructions written out

The cases of `exec_step` for RV32I, RV32M and Zicsr in the `PIPELINE_TIMING` build, as scripts: it
shows in them when an instruction uses the value of an integer register.  `BRANCH_TIMING` may be on,
which adds the branch predictor to the jumps and branches.

* `PredictedHart`, `onTimed`, `predict`: the object with the predictor, and computations on it;
* `registers`: the integer registers as the cells that scripts use;
* `Ignores`: the parts of these instructions that take no notice of the registers;
* `op`, `load`, …, `text`: the instructions;
* `run_text`: without `BRANCH_TIMING`, a text does what `execPipeline` does.
-/

namespace Vcil.Iss

open Fallible
open Timing (BranchPredictor Pipeline Range)

variable {W α β : Type}

/-! ### The object with the predictor -/

/-- The members of `ISS` in the `BRANCH_TIMING` build. -/
structure PredictedHart (W : Type) where
  timed : TimedHart W
  branchPredictor : BranchPredictor

/-- A computation that does not touch the branch predictor. -/
def onTimed (m : PM W α) : EStateM Raise (PredictedHart W) α := fun s =>
  match m s.timed with
  | .ok a t => .ok a { s with timed := t }
  | .error e t => .error e { s with timed := t }

theorem onTimed_of_ok {m : PM W α} {s : PredictedHart W} {a : α} {t : TimedHart W}
    (h : m s.timed = .ok a t) : onTimed m s = .ok a { s with timed := t } := by
  unfold onTimed
  rw [h]

theorem onTimed_of_error {m : PM W α} {s : PredictedHart W} {e : Raise} {t : TimedHart W}
    (h : m s.timed = .error e t) : onTimed m s = .error e { s with timed := t } := by
  unfold onTimed
  rw [h]

theorem onTimed_ok {m : PM W α} {s s' : PredictedHart W} {a : α} (h : onTimed m s = .ok a s') :
    ∃ t, m s.timed = .ok a t ∧ s' = { s with timed := t } := by
  cases hm : m s.timed with
  | ok b t =>
    rw [onTimed_of_ok hm] at h
    cases h
    exact ⟨t, rfl, rfl⟩
  | error e t =>
    rw [onTimed_of_error hm] at h
    cases h

theorem onTimed_bind (m : PM W α) (k : α → PM W β) :
    onTimed (m >>= k) = onTimed m >>= fun a => onTimed (k a) := by
  funext s
  cases hm : m s.timed with
  | ok a t =>
    rw [bind_of_ok (onTimed_of_ok hm)]
    unfold onTimed
    rw [bind_of_ok hm]
  | error e t => rw [onTimed_of_error (bind_of_error hm), bind_of_error (onTimed_of_error hm)]

theorem onTimed_ite {c : Prop} [Decidable c] (m n : PM W α) :
    onTimed (if c then m else n) = if c then onTimed m else onTimed n := by
  split <;> rfl

/-- A call of the branch predictor. -/
def predict (call : BranchPredictor → Pipeline → Option (BranchPredictor × Pipeline)) :
    EStateM Raise (PredictedHart W) Unit := fun s =>
  match call s.branchPredictor s.timed.pipeline with
  | some (b, p) => .ok () ⟨{ s.timed with pipeline := p }, b⟩
  | none => .error .assertion s

theorem predict_of_some
    {call : BranchPredictor → Pipeline → Option (BranchPredictor × Pipeline)} {s : PredictedHart W}
    {b : BranchPredictor} {p : Pipeline}
    (h : call s.branchPredictor s.timed.pipeline = some (b, p)) :
    predict call s = .ok () ⟨{ s.timed with pipeline := p }, b⟩ := by
  unfold predict
  rw [h]

/-! ### The registers -/

/-- The hart without the value of `r`. -/
def Hart.hideReg (r : RegIdx) (h : Hart W) : Hart W :=
  { h with regs := Function.update h.regs r 0 }

/-- The same for a hart with its timing model. -/
def TimedHart.hideReg (r : RegIdx) (t : TimedHart W) : TimedHart W :=
  { t with hart := t.hart.hideReg r }

/-- The same for a hart with its predictor. -/
def PredictedHart.hideReg (r : RegIdx) (s : PredictedHart W) : PredictedHart W :=
  { s with timed := s.timed.hideReg r }

/-- The integer registers. -/
def registers : Cells (PredictedHart W) RegIdx Word where
  value r s := s.timed.hart.regs r
  hide := PredictedHart.hideReg
  value_hide hj _ := Function.update_of_ne hj _ _

/-- A piece of an instruction, in which it shows where it uses the registers. -/
abbrev Text (W : Type) := Script Raise (registers (W := W))

/-- `pc`. -/
def getPc : M W Word := do return (← get).pc
/-- `last_pc`. -/
def getLastPc : M W Word := do return (← get).lastPc

/-! ### Parts that take no notice of a register -/

section Hart

variable {r : RegIdx}

theorem hidden_illegalIf {c : Hart W → Bool} (hc : ∀ h, c (h.hideReg r) = c h) :
    Ignores (Hart.hideReg r) (illegalIf c) := by
  have : Ignores (Hart.hideReg r) (raiseIllegalInstruction : M W Unit) :=
    .get_bind (fun _ => rfl) fun _ => .throw _
  exact .get_bind (fun h => by rw [hc]) fun h => inferInstance

theorem hidden_setCsrs (f : Csrs → Csrs) : Ignores (Hart.hideReg r) (setCsrs f : M W Unit) :=
  .of_modify_comm fun _ => rfl

instance : Ignores (Hart.hideReg r) (raiseIllegalInstruction : M W α) :=
  .get_bind (fun _ => rfl) fun _ => .throw _

instance (x : IsaExt) : Ignores (Hart.hideReg r) (requireIsa x : M W Unit) :=
  hidden_illegalIf fun _ => rfl

instance (pc : Word) : Ignores (Hart.hideReg r) (setPc pc : M W Unit) := .of_modify_comm fun _ => rfl

instance : Ignores (Hart.hideReg r) (getPc : M W Word) := .get_bind (fun _ => rfl) fun _ => .pure _

instance : Ignores (Hart.hideReg r) (getLastPc : M W Word) :=
  .get_bind (fun _ => rfl) fun _ => .pure _

instance : Ignores (Hart.hideReg r) (ebreak : M W Unit) := .of_modify_comm fun _ => rfl

instance (q : RegIdx) (v : Word) : Ignores (Hart.hideReg r) (setReg q v : M W Unit) := by
  refine .of_modify fun h => ?_
  show ({ h with regs := Function.update (Function.update (Function.update h.regs r 0) q v) r 0 } :
    Hart W) = { h with regs := Function.update (Function.update h.regs q v) r 0 }
  by_cases hq : q = r
  · rw [hq, Function.update_idem, Function.update_idem, Function.update_idem]
  · rw [Function.update_comm hq, Function.update_idem, Function.update_comm hq]

instance (f : World W → World W) : Ignores (Hart.hideReg r) (onWorld f) :=
  .of_modify_comm fun _ => rfl

instance (f : Access W α) : Ignores (Hart.hideReg r) (access f) := by
  refine ⟨fun h h' (halike : h.hideReg r = h'.hideReg r) => ?_⟩
  have hview : h.memView = h'.memView := Alike.eq (f := Hart.memView) halike fun _ => rfl
  have hworld : h.world = h'.world := Alike.eq (f := Hart.world) halike fun _ => rfl
  unfold access
  rw [hview, hworld]
  rcases f h'.memView h'.world with ⟨_ | a, w⟩
  · exact ⟨rfl, congrArg (Hart.setWorld · w) halike⟩
  · exact ⟨rfl, congrArg (Hart.setWorld · w) halike⟩

instance (e : Option SimulationTrap) : Ignores (Hart.hideReg r) (raiseIfSome e : M W Unit) := by
  unfold raiseIfSome
  cases e <;> infer_instance

variable (env : Env W)

instance (n : ℕ) (isLoad : Bool) (addr : Word) :
    Ignores (Hart.hideReg r) (trapCheckAddrAlignment env n isLoad addr) := by
  unfold trapCheckAddrAlignment
  infer_instance

instance : Ignores (Hart.hideReg r) (trapCheckPcAlignment env) :=
  .get_bind (fun _ => rfl) fun _ => inferInstance

instance (addr : Word) : Ignores (Hart.hideReg r) (noCheck addr : M W Unit) := .pure ()

instance (i : Instruction) : Ignores (Hart.hideReg r) (takeBranch env i) := by
  have : Ignores (Hart.hideReg r) (modify fun h => { h with pc := h.lastPc + i.bImm } :
    M W Unit) := .of_modify_comm fun _ => rfl
  unfold takeBranch
  infer_instance

instance : Ignores (Hart.hideReg r) (ecallTrap : M W Unit) := by
  have (mode : PrivilegeLevel) : Ignores (Hart.hideReg r) (unknownPrivilegeLevel mode : M W Unit) := by
    unfold unknownPrivilegeLevel
    infer_instance
  have (reason : ExceptionCode) (mtval : BitVec 64) :
    Ignores (Hart.hideReg r) (raiseTrap reason mtval : M W Unit) := .throw _
  exact .get_bind (fun _ => rfl) fun _ => inferInstance

instance (addr : CsrAddr) (isWrite : Bool) :
    Ignores (Hart.hideReg r) (isInvalidCsrAccess addr isWrite : M W Bool) :=
  .seq (hidden_illegalIf fun _ => rfl) fun _ => .get_bind (fun _ => rfl) fun _ => inferInstance

instance (cycles : M W (BitVec 64)) [Ignores (Hart.hideReg r) cycles] (addr : CsrAddr) :
    Ignores (Hart.hideReg r) (getCsrValue env cycles addr) := by
  have hcheck : Ignores (Hart.hideReg r) (validateCsrCounterReadAccessRights addr : M W Unit) :=
    hidden_illegalIf fun _ => rfl
  have (f : Csrs → Word) : Ignores (Hart.hideReg r) (readCsrs f : M W Word) :=
    .get_bind (fun _ => rfl) fun _ => inferInstance
  have hdefault : Ignores (Hart.hideReg r) (readDefault env addr) :=
    .seq (hidden_illegalIf fun _ => rfl) fun _ => .get_bind (fun _ => rfl) fun _ => inferInstance
  have (f : Csrs → Csrs) : Ignores (Hart.hideReg r) (setCsrs f : M W Unit) := hidden_setCsrs f
  have htime : Ignores (Hart.hideReg r) (readTime env) :=
    .get_bind (fun _ => rfl) fun _ => inferInstance
  have hcycle : Ignores (Hart.hideReg r) (readCycle cycles) := by
    unfold readCycle
    infer_instance
  have : Ignores (Hart.hideReg r) (illegalIf fun h : Hart W =>
    Mstatus.tvm.isSet h.csrs.mstatus) := hidden_illegalIf fun _ => rfl
  unfold getCsrValue
  refine .seq hcheck fun _ => ?_
  cases csrName env addr <;> infer_instance

instance (addr : CsrAddr) (v : Word) : Ignores (Hart.hideReg r) (setCsrValue env addr v) := by
  have (f : Csrs → Csrs) : Ignores (Hart.hideReg r) (setCsrs f : M W Unit) := hidden_setCsrs f
  have : Ignores (Hart.hideReg r) (illegalIf fun h : Hart W =>
    Mstatus.tvm.isSet h.csrs.mstatus) := hidden_illegalIf fun _ => rfl
  have : Ignores (Hart.hideReg r) (illegalIf fun _ : Hart W => !env.isValidCsr32Addr addr) :=
    hidden_illegalIf fun _ => rfl
  unfold setCsrValue
  cases csrName env addr <;> infer_instance

end Hart

section Timed

variable {r : RegIdx}

instance (m : M W α) [h : Ignores (Hart.hideReg r) m] : Ignores (TimedHart.hideReg r) (lift m) := by
  refine ⟨fun t t' (halike : t.hideReg r = t'.hideReg r) => ?_⟩
  have hhart : t.hart.hideReg r = t'.hart.hideReg r := congrArg TimedHart.hart halike
  have hpipeline : t.pipeline = t'.pipeline := Alike.eq (f := TimedHart.pipeline) halike fun _ => rfl
  have hm := h.agree t.hart t'.hart hhart
  unfold lift
  cases hr : m t.hart <;> cases hr' : m t'.hart <;> rw [hr, hr'] at hm
  · exact ⟨hm.1, congrArg₂ TimedHart.mk hm.2 hpipeline⟩
  · exact hm.elim
  · exact hm.elim
  · exact ⟨hm.1, congrArg₂ TimedHart.mk hm.2 hpipeline⟩

instance (call : Pipeline → Option Pipeline) :
    Ignores (TimedHart.hideReg r) (charge call : PM W Unit) := by
  refine ⟨fun t t' (halike : t.hideReg r = t'.hideReg r) => ?_⟩
  have hpipeline : t.pipeline = t'.pipeline := Alike.eq (f := TimedHart.pipeline) halike fun _ => rfl
  have hhart : t.hart.hideReg r = t'.hart.hideReg r := congrArg TimedHart.hart halike
  unfold charge
  rw [hpipeline]
  cases call t'.pipeline with
  | some p => exact ⟨rfl, congrArg (TimedHart.mk · p) hhart⟩
  | none => exact ⟨rfl, halike⟩

instance (q : RegIdx) : Ignores (TimedHart.hideReg r) (accessRegister q : PM W Unit) := by
  unfold accessRegister
  infer_instance

instance (q : RegIdx) (v : Word) : Ignores (TimedHart.hideReg r) (write q v : PM W Unit) := by
  unfold write
  infer_instance

variable (env : Env W) (i : Instruction)

instance (addr : CsrAddr) : Ignores (TimedHart.hideReg r) (csrValuePipeline env addr) :=
  .get_bind (fun _ => rfl) fun _ => inferInstance

instance (value : Word) : Ignores (TimedHart.hideReg r) (setRdPipeline i value : PM W Unit) := by
  unfold setRdPipeline
  infer_instance

instance : Ignores (TimedHart.hideReg r) (csrToRdPipeline env i) := by
  unfold csrToRdPipeline
  infer_instance

end Timed

instance (m : PM W α) [h : ∀ r, Ignores (TimedHart.hideReg r) m] : Blind registers (onTimed m) := by
  refine ⟨fun r => ⟨fun s s' (halike : s.hideReg r = s'.hideReg r) => ?_⟩⟩
  have htimed : s.timed.hideReg r = s'.timed.hideReg r := congrArg PredictedHart.timed halike
  have hpredictor : s.branchPredictor = s'.branchPredictor :=
    Alike.eq (f := PredictedHart.branchPredictor) halike fun _ => rfl
  have hm := (h r).agree s.timed s'.timed htimed
  unfold onTimed
  cases hr : m s.timed <;> cases hr' : m s'.timed <;> rw [hr, hr'] at hm
  · exact ⟨hm.1, congrArg₂ PredictedHart.mk hm.2 hpredictor⟩
  · exact hm.elim
  · exact hm.elim
  · exact ⟨hm.1, congrArg₂ PredictedHart.mk hm.2 hpredictor⟩

instance (call : BranchPredictor → Pipeline → Option (BranchPredictor × Pipeline)) :
    Blind registers (predict call : EStateM Raise (PredictedHart W) Unit) := by
  refine ⟨fun r => ⟨fun s s' (halike : s.hideReg r = s'.hideReg r) => ?_⟩⟩
  have hpredictor : s.branchPredictor = s'.branchPredictor :=
    Alike.eq (f := PredictedHart.branchPredictor) halike fun _ => rfl
  have hpipeline : s.timed.pipeline = s'.timed.pipeline :=
    Alike.eq (f := fun s => s.timed.pipeline) halike fun _ => rfl
  unfold predict
  rw [hpredictor, hpipeline]
  cases call s'.branchPredictor s'.timed.pipeline with
  | some x =>
    have hhart : s.timed.hart.hideReg r = s'.timed.hart.hideReg r :=
      congrArg (fun s => s.timed.hart) halike
    exact ⟨rfl, congrArg (fun h => (⟨⟨h, x.2⟩, x.1⟩ : PredictedHart W)) hhart⟩
  | none => exact ⟨rfl, halike⟩

/-! ### Pieces of texts -/

/-- `RegFile::ra`. -/
def ra : RegIdx := 1

namespace Text

/-- A step without the predictor. -/
def step (m : PM W α) [h : Blind registers (onTimed m)] : Text W α := Script.step (onTimed m) h

/-- A call of the predictor with `last_pc` and `pc`. -/
def predictFrom (call : BranchPredictor → Pipeline → BitVec 64 → BitVec 64 →
    Option (BranchPredictor × Pipeline)) : Text W Unit := do
  let lastPc ← step (lift getLastPc)
  let pc ← step (lift getPc)
  Script.step (predict fun b p => call b p (lastPc.setWidth 64) (pc.setWidth 64)) inferInstance

/-- `read`; `u_read` delivers the same bits. -/
def read (r : RegIdx) : Text W Word := do
  step (accessRegister r)
  Script.use r

/-- `shamt(r)`, a use of `r` like `read`. -/
def shamt (r : RegIdx) : Text W ℕ := shiftAmount <$> read r

/-! ### The instructions -/

section Instructions

variable (env : Env W) (branchTiming : Bool) (i : Instruction)

/-- The register-immediate operations. -/
def opImm (f : Word → Word → Word) : Text W Unit := do
  let a ← read i.rs1
  step (write i.rd (f a i.iImm))

/-- The register-register operations. -/
def op (f : Word → Word → Word) : Text W Unit := do
  let a ← read i.rs1
  let b ← read i.rs2
  step (write i.rd (f a b))

/-- The shifts by a register. -/
def shift (f : Word → ℕ → Word) : Text W Unit := do
  let a ← read i.rs1
  let s ← shamt i.rs2
  step (write i.rd (f a s))

/-- The shifts by a constant. -/
def shiftImm (f : Word → ℕ → Word) : Text W Unit := do
  let a ← read i.rs1
  step (write i.rd (f a i.shamt.toNat))

/-- `LUI` uses no register. -/
def lui : Text W Unit := step (write i.rd i.uImm)

/-- `AUIPC` uses no register. -/
def auipc : Text W Unit := do
  let lastPc ← step (lift getLastPc)
  step (write i.rd (lastPc + i.uImm))

/-- `JAL` tells the predictor of a call, if it links in `ra`, or of a jump. -/
def jal : Text W Unit := do
  let link ← step (lift getPc)
  let lastPc ← step (lift getLastPc)
  step (lift (setPc (lastPc + i.jImm)))
  step (lift (trapCheckPcAlignment env))
  step (write i.rd link)
  if branchTiming then
    if i.rd = ra then predictFrom fun b p lastPc pc => b.doCall p lastPc pc (link.setWidth 64)
    else predictFrom fun b p lastPc pc => b.doJump p lastPc pc (link.setWidth 64)
  else pure ()

/-- The base register is used without `read`. -/
def jalr : Text W Unit := do
  let link ← step (lift getPc)
  let a ← Script.use i.rs1
  step (lift (setPc ((a + i.iImm) &&& ~~~1)))
  step (lift (trapCheckPcAlignment env))
  step (write i.rd link)
  if branchTiming then
    if i.rd = ra then predictFrom fun b p lastPc pc => b.doCall p lastPc pc (link.setWidth 64)
    else if i.rs1 = ra then
      predictFrom fun b p lastPc pc => b.doRet p lastPc pc (link.setWidth 64)
    else predictFrom fun b p lastPc pc => b.doJump p lastPc pc (link.setWidth 64)
  else pure ()

/-- `update_branch_prediction`, called for branches that are taken and for those that are not. -/
def predictBranch (branchTaken : Bool) : Text W Unit :=
  if branchTiming then
    predictFrom fun b p lastPc pc => b.updateBranchPrediction p lastPc pc branchTaken
  else pure ()

/-- A branch uses both registers before it compares them. -/
def branch (c : Word → Word → Bool) : Text W Unit := do
  let a ← read i.rs1
  let b ← read i.rs2
  if c a b then do
    step (lift (takeBranch env i))
    predictBranch branchTiming true
  else predictBranch branchTiming false

section Memory

variable (size : ℕ) (check : Word → M W Unit) [∀ r addr, Ignores (Hart.hideReg r) (check addr)]

/-- A store uses the address before the check, and the value after it. -/
def store (f : Word → Word → Access W Unit) : Text W Unit := do
  let a ← read i.rs1
  let addr := a + i.sImm
  step (lift (check addr))
  let v ← read i.rs2
  step (lift (access (f addr v)))
  step (charge fun p => some (p.reserveStore ⟨addr, addr + BitVec.ofNat 32 size⟩ 1))

/-- A load uses the address. -/
def load (f : Word → Access W Word) : Text W Unit := do
  let a ← read i.rs1
  let addr := a + i.iImm
  step (lift (check addr))
  let v ← step (lift (access (f addr)))
  step (write i.rd v)
  step (charge fun p => p.doLoad ⟨addr, addr + BitVec.ofNat 32 size⟩ i.rd.toNat 2)

end Memory

/-- The CSR instructions that write a given value use it after the access check. -/
def csrWrite (value : Text W Word) : Text W Unit := do
  let invalid ← step (lift (isInvalidCsrAccess i.csr true))
  if invalid then step (lift raiseIllegalInstruction)
  else do
    let v ← value
    step (csrToRdPipeline env i)
    step (lift (setCsrValue env i.csr v))

/-- The CSR instructions that change bits of the old value. -/
def csrChange (checked write : Bool) (value : Text W Word) (f : Word → Word → Word) :
    Text W Unit := do
  let invalid ← step (lift (isInvalidCsrAccess i.csr checked))
  if invalid then step (lift raiseIllegalInstruction)
  else do
    let v ← value
    let csrVal ← step (csrValuePipeline env i.csr)
    step (setRdPipeline i csrVal)
    if write then step (lift (setCsrValue env i.csr (f csrVal v))) else pure ()

/-- The multiplications but `MULHSU`. -/
def mul (f : Word → Word → Word) : Text W Unit := do
  step (lift (requireIsa .m))
  let a ← read i.rs1
  let b ← read i.rs2
  step (write i.rd (f a b))
  step (charge fun p => p.doMult i.rd.toNat a b)

/-- The product is computed from the registers themselves. -/
def mulhsu : Text W Unit := do
  step (lift (requireIsa .m))
  let a ← read i.rs1
  let b ← read i.rs2
  let x ← Script.use i.rs1
  let y ← Script.use i.rs2
  step (write i.rd (mulhsuResult x y))
  step (charge fun p => p.doMult i.rd.toNat a b)

/-- The divisions. -/
def div (f : Word → Word → Word) : Text W Unit := do
  step (lift (requireIsa .m))
  let a ← read i.rs1
  let b ← read i.rs2
  step (write i.rd (f a b))
  step (charge fun p => p.doDiv i.rd.toNat a b)

end Instructions

end Text

section

variable (env : Env W) (branchTiming : Bool) (i : Instruction)

/-- The instructions of RV32I, RV32M and Zicsr.  A system call that the platform emulates is not the
text of an instruction. -/
def text : Opcode → Option (Text W Unit)
  | .addi => some (Text.opImm i (· + ·))
  | .slti => some (Text.opImm i fun a b => ofBool (a.slt b))
  | .sltiu => some (Text.opImm i fun a b => ofBool (a < b))
  | .xori => some (Text.opImm i (· ^^^ ·))
  | .ori => some (Text.opImm i (· ||| ·))
  | .andi => some (Text.opImm i (· &&& ·))
  | .add => some (Text.op i (· + ·))
  | .sub => some (Text.op i (· - ·))
  | .sll => some (Text.shift i fun a s => a <<< s)
  | .slt => some (Text.op i fun a b => ofBool (a.slt b))
  | .sltu => some (Text.op i fun a b => ofBool (a < b))
  | .srl => some (Text.shift i fun a s => a >>> s)
  | .sra => some (Text.shift i fun a s => a.sshiftRight s)
  | .xor => some (Text.op i (· ^^^ ·))
  | .or => some (Text.op i (· ||| ·))
  | .and => some (Text.op i (· &&& ·))
  | .slli => some (Text.shiftImm i fun a s => a <<< s)
  | .srli => some (Text.shiftImm i fun a s => a >>> s)
  | .srai => some (Text.shiftImm i fun a s => a.sshiftRight s)
  | .lui => some (Text.lui i)
  | .auipc => some (Text.auipc i)
  | .jal => some (Text.jal env branchTiming i)
  | .jalr => some (Text.jalr env branchTiming i)
  | .sb => some (Text.store i 1 noCheck fun addr v => env.storeByte addr (v.setWidth 8))
  | .sh => some (Text.store i 2 (trapCheckAddrAlignment env 2 false) fun addr v =>
      env.storeHalf addr (v.setWidth 16))
  | .sw => some (Text.store i 4 (trapCheckAddrAlignment env 4 false) env.storeWord)
  | .lb => some (Text.load i 1 noCheck env.loadByte)
  | .lh => some (Text.load i 2 (trapCheckAddrAlignment env 2 true) env.loadHalf)
  | .lw => some (Text.load i 4 (trapCheckAddrAlignment env 4 true) env.loadWord)
  | .lbu => some (Text.load i 1 noCheck env.loadUbyte)
  | .lhu => some (Text.load i 2 (trapCheckAddrAlignment env 2 true) env.loadUhalf)
  | .beq => some (Text.branch env branchTiming i fun a b => a = b)
  | .bne => some (Text.branch env branchTiming i fun a b => a ≠ b)
  | .blt => some (Text.branch env branchTiming i fun a b => a.slt b)
  | .bge => some (Text.branch env branchTiming i fun a b => !a.slt b)
  | .bltu => some (Text.branch env branchTiming i fun a b => a < b)
  | .bgeu => some (Text.branch env branchTiming i fun a b => b ≤ a)
  | .fence | .fenceI => some (pure ())
  | .ecall => match env.executeSyscall with
    | none => some (Text.step (lift ecallTrap))
    | some _ => none
  | .ebreak => some (Text.step (lift ebreak))
  | .csrrw => some (Text.csrWrite env i (Text.read i.rs1))
  | .csrrs => some (Text.csrChange env i (i.rs1 ≠ 0) (i.rs1 ≠ 0) (Text.read i.rs1) (· ||| ·))
  | .csrrc => some (Text.csrChange env i (i.rs1 ≠ 0) (i.rs1 ≠ 0) (Text.read i.rs1) fun a b => a &&& ~~~b)
  | .csrrwi => some (Text.csrWrite env i (pure (i.zimm.setWidth 32)))
  | .csrrsi => some (Text.csrChange env i true (i.zimm ≠ 0) (pure (i.zimm.setWidth 32)) (· ||| ·))
  | .csrrci => some (Text.csrChange env i true (i.zimm ≠ 0) (pure (i.zimm.setWidth 32))
      fun a b => a &&& ~~~b)
  | .mul => some (Text.mul i mulResult)
  | .mulh => some (Text.mul i mulhResult)
  | .mulhu => some (Text.mul i mulhuResult)
  | .mulhsu => some (Text.mulhsu i)
  | .div => some (Text.div i divResult)
  | .divu => some (Text.div i divuResult)
  | .rem => some (Text.div i remResult)
  | .remu => some (Text.div i remuResult)
  | _ => none

/-- RV32I, RV32M and Zicsr. -/
def integerOpcodes : List Opcode := [
  .addi, .slti, .sltiu, .xori, .ori, .andi, .slli, .srli, .srai,
  .add, .sub, .sll, .slt, .sltu, .srl, .sra, .xor, .or, .and, .lui, .auipc,
  .jal, .jalr, .beq, .bne, .blt, .bge, .bltu, .bgeu,
  .sb, .sh, .sw, .lb, .lh, .lw, .lbu, .lhu, .fence, .fenceI, .ecall, .ebreak,
  .csrrw, .csrrs, .csrrc, .csrrwi, .csrrsi, .csrrci,
  .mul, .mulh, .mulhu, .mulhsu, .div, .divu, .rem, .remu]

/-- Each of them has a text. -/
theorem text_isSome {op : Opcode} (hop : op ∈ integerOpcodes)
    (hcall : op = .ecall → env.executeSyscall = none) :
    (text env branchTiming i op).isSome = true := by
  cases op with
  | ecall => simp [text, hcall]
  | _ => first
    | rfl
    | exact absurd hop (by decide)

/-- `BRANCH_TIMING` is for the jumps and branches. -/
theorem text_true_eq {op : Opcode}
    (hop : op ∉ [.jal, .jalr, .beq, .bne, .blt, .bge, .bltu, .bgeu]) :
    text env true i op = text env false i op := by
  cases op with
  | jal | jalr | beq | bne | blt | bge | bltu | bgeu => exact absurd (by decide) hop
  | _ => rfl

/-- A register that a run of a text does not use does not matter to it. -/
theorem text_hideReg {t : Text W α} {s : PredictedHart W} {r : RegIdx}
    (hunused : ∀ u ∈ t.uses s, u.1 ≠ r) :
    Agree (Alike (PredictedHart.hideReg r)) (fun _ => Alike (PredictedHart.hideReg r)) (t.run s)
      (t.run (s.hideReg r)) := by
  refine t.run_hide hunused ?_
  show s.hideReg r = (s.hideReg r).hideReg r
  simp only [PredictedHart.hideReg, TimedHart.hideReg, Hart.hideReg, Function.update_idem]

end

/-! ### Without `BRANCH_TIMING` -/

namespace Text

theorem run_step (m : PM W α) [Blind registers (onTimed m)] : (step m).run = onTimed m := rfl

theorem run_use (r : RegIdx) : (Script.use r : Text W Word).run = onTimed (lift (reg r)) := rfl

theorem run_read (r : RegIdx) : (read r : Text W Word).run = onTimed (Iss.read r) := by
  unfold read Iss.read
  rw [onTimed_bind, Script.run_bind, run_step, run_use]

theorem run_shamt (r : RegIdx) : (shamt r : Text W ℕ).run = onTimed (Iss.shamt r) := by
  have hshamt : Iss.shamt r = (do return shiftAmount (← Iss.read r) : PM W ℕ) := by
    unfold Iss.shamt Iss.read
    rw [bind_assoc]
    rfl
  rw [hshamt, onTimed_bind, ← run_read]
  rfl

section

variable (env : Env W) (i : Instruction)

theorem run_opImm (f : Word → Word → Word) :
    (opImm i f : Text W Unit).run = onTimed (opImmPipeline i f) := by
  simp only [opImm, opImmPipeline, Script.run_bind, onTimed_bind, run_read, run_step]

theorem run_op (f : Word → Word → Word) :
    (op i f : Text W Unit).run = onTimed (opPipeline i f) := by
  simp only [op, opPipeline, Script.run_bind, onTimed_bind, run_read, run_step]

theorem run_shift (f : Word → ℕ → Word) :
    (shift i f : Text W Unit).run = onTimed (shiftPipeline i f) := by
  simp only [shift, shiftPipeline, Script.run_bind, onTimed_bind, run_read, run_shamt, run_step]

theorem run_shiftImm (f : Word → ℕ → Word) :
    (shiftImm i f : Text W Unit).run = onTimed (shiftImmPipeline i f) := by
  simp only [shiftImm, shiftImmPipeline, Script.run_bind, onTimed_bind, run_read, run_step]

theorem run_auipc : (auipc i : Text W Unit).run = onTimed (auipcPipeline i) := rfl

theorem run_jal : (jal env false i).run = onTimed (jalPipeline env i) := by
  funext s
  have htext : (jal env false i).run s = onTimed (do
      lift (setPc (s.timed.hart.lastPc + i.jImm))
      lift (trapCheckPcAlignment env)
      Iss.write i.rd s.timed.hart.pc) s := by
    simp only [jal, Script.run_bind, run_step, onTimed_bind, Bool.false_eq_true, if_false,
      Script.run_pure, bind_pure_unit]
    rfl
  exact htext

theorem run_jalr : (jalr env false i).run = onTimed (jalrPipeline env i) := by
  funext s
  have htext : (jalr env false i).run s = onTimed (do
      lift (setPc ((s.timed.hart.regs i.rs1 + i.iImm) &&& ~~~1))
      lift (trapCheckPcAlignment env)
      Iss.write i.rd s.timed.hart.pc) s := by
    simp only [jalr, Script.run_bind, run_step, run_use, onTimed_bind, Bool.false_eq_true, if_false,
      Script.run_pure, bind_pure_unit]
    rfl
  exact htext

theorem run_branch (c : Word → Word → Bool) :
    (branch env false i c).run = onTimed (branchPipeline env i c) := by
  simp only [branch, branchPipeline, predictBranch, Script.run_bind, onTimed_bind, onTimed_ite,
    run_read, run_step, Script.run_ite, Script.run_pure, bind_pure_unit, Bool.false_eq_true, if_false]
  rfl

section Memory

variable (size : ℕ) (check : Word → M W Unit) [∀ r addr, Ignores (Hart.hideReg r) (check addr)]

theorem run_store (f : Word → Word → Access W Unit) :
    (store i size check f).run = onTimed (storePipeline i size check f) := by
  simp only [store, storePipeline, Script.run_bind, onTimed_bind, run_read, run_step]

theorem run_load (f : Word → Access W Word) :
    (load i size check f).run = onTimed (loadPipeline i size check f) := by
  simp only [load, loadPipeline, Script.run_bind, onTimed_bind, run_read, run_step]

end Memory

theorem run_csrWrite {t : Text W Word} {value : PM W Word} (hvalue : t.run = onTimed value) :
    (csrWrite env i t).run = onTimed (csrWritePipeline env i value) := by
  simp only [csrWrite, csrWritePipeline, Script.run_bind, onTimed_bind, onTimed_ite, run_step,
    Script.run_ite, hvalue]

theorem run_csrChange {t : Text W Word} {value : PM W Word} (hvalue : t.run = onTimed value)
    (checked write : Bool) (f : Word → Word → Word) :
    (csrChange env i checked write t f).run =
      onTimed (csrChangePipeline env i checked write value f) := by
  simp only [csrChange, csrChangePipeline, Script.run_bind, onTimed_bind, onTimed_ite, run_step,
    Script.run_ite, Script.run_pure, hvalue]
  rfl

theorem run_mul (f : Word → Word → Word) :
    (mul i f : Text W Unit).run = onTimed (mulPipeline i f) := by
  simp only [mul, mulPipeline, Script.run_bind, onTimed_bind, run_read, run_step]

theorem run_mulhsu : (mulhsu i : Text W Unit).run = onTimed (mulhsuPipeline i) := by
  simp only [mulhsu, mulhsuPipeline, Script.run_bind, onTimed_bind, run_read, run_step]
  rfl

theorem run_div (f : Word → Word → Word) :
    (div i f : Text W Unit).run = onTimed (divPipeline i f) := by
  simp only [div, divPipeline, Script.run_bind, onTimed_bind, run_read, run_step]

end

end Text

/-- Without `BRANCH_TIMING` a text does what `exec_step` does. -/
theorem run_text {env : Env W} {i : Instruction} {op : Opcode} {t : Text W Unit}
    (ht : text env false i op = some t) : t.run = onTimed (execPipeline env i op) := by
  cases op with
  | addi | slti | sltiu | xori | ori | andi =>
    cases ht
    exact Text.run_opImm i _
  | add | sub | slt | sltu | xor | or | and =>
    cases ht
    exact Text.run_op i _
  | sll | srl | sra =>
    cases ht
    exact Text.run_shift i _
  | slli | srli | srai =>
    cases ht
    exact Text.run_shiftImm i _
  | jal =>
    cases ht
    exact Text.run_jal env i
  | jalr =>
    cases ht
    exact Text.run_jalr env i
  | sb | sh | sw =>
    cases ht
    exact Text.run_store i _ _ _
  | lb | lh | lw | lbu | lhu =>
    cases ht
    exact Text.run_load i _ _ _
  | beq | bne | blt | bge | bltu | bgeu =>
    cases ht
    exact Text.run_branch env i _
  | ecall =>
    simp only [text] at ht
    split at ht
    next hcall =>
      cases ht
      show _ = onTimed (lift (ecall env))
      rw [ecall, hcall]
      rfl
    next => cases ht
  | csrrw =>
    cases ht
    exact Text.run_csrWrite env i (Text.run_read _)
  | csrrs | csrrc =>
    cases ht
    exact Text.run_csrChange env i (Text.run_read _) _ _ _
  | csrrwi =>
    cases ht
    exact Text.run_csrWrite env i rfl
  | csrrsi | csrrci =>
    cases ht
    exact Text.run_csrChange env i rfl _ _ _
  | mul | mulh | mulhu =>
    cases ht
    exact Text.run_mul i _
  | mulhsu =>
    cases ht
    exact Text.run_mulhsu i
  | div | divu | rem | remu =>
    cases ht
    exact Text.run_div i _
  | lui | auipc | fence | fenceI | ebreak =>
    cases ht
    rfl
  | _ => cases ht

end Vcil.Iss
