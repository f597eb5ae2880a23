import Vcil.Iss.Modes
import Vcil.Iss.RunStep
import Vcil.Lib.Composed
import Vcil.Timing.Scoreboard

/-!
# What instructions are made of

The cases of `exec_step` are put together from a few kinds of parts, listed here by what they may
write and raise.

* `Env.Reads`, `Env.Stores`: the calls of the platform, by what they do to memory;
* `Quiet`, `Keep`, `Last`, `Free`, `Part`: the parts of an instruction;
* `Timed P`: those of the `PIPELINE_TIMING` build;
* `made_exec`: an instruction other than a return is made of parts;
* `staged_exec`: most instructions write a register or memory only where no trap can follow;
* `FetchPart`, `StepPart`: the parts of what comes before and after the instruction.
-/

-- a case is a chain of ten calls, each an instance
set_option synthInstance.maxSize 512

namespace Vcil.Iss

open Fallible
open Timing (Call Pipeline Range)

variable {W α β : Type}

/-! ### Calls of the platform -/

/-- Calls that leave memory alone: loads, and the unlock of the bus. -/
class inductive Env.Reads (env : Env W) : {α : Type} → Access W α → Prop
  | loadInstr (addr : Word) : Env.Reads env (env.loadInstr addr)
  | loadByte (addr : Word) : Env.Reads env (env.loadByte addr)
  | loadHalf (addr : Word) : Env.Reads env (env.loadHalf addr)
  | loadWord (addr : Word) : Env.Reads env (env.loadWord addr)
  | loadUbyte (addr : Word) : Env.Reads env (env.loadUbyte addr)
  | loadUhalf (addr : Word) : Env.Reads env (env.loadUhalf addr)
  | loadDouble (addr : Word) : Env.Reads env (env.loadDouble addr)
  | atomicLoadReservedWord (addr : Word) : Env.Reads env (env.atomicLoadReservedWord addr)
  | atomicUnlock : Env.Reads env env.atomicUnlock

/-- Calls that write memory, unless they raise a trap: stores and system calls. -/
class inductive Env.Stores (env : Env W) : {α : Type} → Access W α → Prop
  | storeByte (addr : Word) (v : Byte) : Env.Stores env (env.storeByte addr v)
  | storeHalf (addr : Word) (v : BitVec 16) : Env.Stores env (env.storeHalf addr v)
  | storeWord (addr v : Word) : Env.Stores env (env.storeWord addr v)
  | storeDouble (addr : Word) (v : BitVec 64) : Env.Stores env (env.storeDouble addr v)
  | atomicStoreConditionalWord (addr v : Word) :
      Env.Stores env (env.atomicStoreConditionalWord addr v)
  | executeSyscall {f : Word → Word → (RegIdx → Word) → World W →
      Except Raise ((RegIdx → Word) × Bool) × World W} (hf : env.executeSyscall = some f)
      (misa mhartid : Word) (regs : RegIdx → Word) :
      Env.Stores env fun _ => f misa mhartid regs

attribute [instance] Env.Reads.loadInstr Env.Reads.loadByte Env.Reads.loadHalf Env.Reads.loadWord
  Env.Reads.loadUbyte Env.Reads.loadUhalf Env.Reads.loadDouble Env.Reads.atomicLoadReservedWord
  Env.Reads.atomicUnlock Env.Stores.storeByte Env.Stores.storeHalf Env.Stores.storeWord
  Env.Stores.storeDouble Env.Stores.atomicStoreConditionalWord

/-! ### Parts -/

/-- The addresses that the returns jump to are instruction addresses. -/
def Env.EpcsAligned (env : Env W) (c : Csrs) : Prop :=
  ∀ m, c.epc m &&& ~~~env.pcAlignmentMask c.misa = 0

/-- `f` leaves the extensions alone, and the return addresses aligned. -/
structure Env.KeepsEpcs (env : Env W) (f : Csrs → Csrs) : Prop where
  misa : ∀ c, (f c).misa = c.misa
  aligned : ∀ c, env.EpcsAligned c → env.EpcsAligned (f c)

/-- `set_csr_value` itself handles the extensions and the return addresses. -/
def NamesReturn (env : Env W) (addr : CsrAddr) : Prop :=
  csrName env addr = .misa ∨ csrName env addr = .mepc ∨ csrName env addr = .sepc ∨
    csrName env addr = .uepc

/-- An exception of `return_from_trap_handler`, `prepare_interrupt`, `switch_to_trap_handler` or
`ECALL` on a privilege level that they do not know. -/
def UnknownLevel (e : Raise) : Prop :=
  ∃ mode : PrivilegeLevel, e = .runtimeError ("unknown privilege level " ++ toString mode.toNat)

def IsTrap (e : Raise) : Prop := ∃ trap, e = .trap trap

theorem not_isTrap_assertion : ¬IsTrap .assertion := by
  rintro ⟨e, h⟩
  cases h

/-- Parts that write no register, no memory and not `pc`, and raise no trap. -/
inductive Quiet (env : Env W) : (α : Type) → M W α → Prop
  | get : Quiet env (Hart W) get
  | csrs (f : Csrs → Csrs) (hf : env.KeepsEpcs f) : Quiet env Unit (setCsrs f)
  | defaultWrite (addr : CsrAddr) (v : Word) (haddr : ¬NamesReturn env addr) :
      Quiet env Unit (setCsrs fun c => env.defaultWrite32 c addr v)
  | exceptionFlags (flags : Byte) : Quiet env Unit (setExceptionFlags flags)
  | roundingMode :
      Quiet env Unit (modify fun h => { h with softfloatRoundingMode := roundingMode h })
  | lrScCounter (n : ℤ) : Quiet env Unit (setLrScCounter n)
  | ebreak : Quiet env Unit ebreak
  | abort {α : Type} (e : Raise) (htrap : ¬IsTrap e) (hlevel : ¬UnknownLevel e) :
      Quiet env α (throw e)

/-- Parts that may raise a trap, and write no register and no memory. -/
inductive Keep (env : Env W) : (α : Type) → M W α → Prop
  | quiet {α : Type} {m : M W α} (h : Quiet env α m) : Keep env α m
  | trap {α : Type} (e : SimulationTrap) : Keep env α (throw (.trap e))
  | ecallTrap : Keep env Unit ecallTrap
  | read {α : Type} (f : Access W α) (hf : env.Reads f) : Keep env α (access f)
  | mtime : Keep env Unit (onWorld fun w => (env.updateAndGetMtime w).2)
  | jump (f : Hart W → Word) :
      Keep env Unit (do modify fun h => { h with pc := f h }; trapCheckPcAlignment env)

/-- Parts that write memory, or raise a trap. -/
inductive Last (env : Env W) : (α : Type) → M W α → Prop
  | store {α : Type} (f : Access W α) (hf : env.Stores f) : Last env α (access f)

/-- Parts that raise no trap. -/
inductive Free (env : Env W) : (α : Type) → M W α → Prop
  | quiet {α : Type} {m : M W α} (h : Quiet env α m) : Free env α m
  | regs (f : Hart W → RegIdx → Word) : Free env Unit (modify fun h => { h with regs := f h })
  | fpRegs (f : Hart W → RegIdx → BitVec 64) :
      Free env Unit (modify fun h => { h with fpRegs := f h })
  | exit (r : (RegIdx → Word) × Bool) :
      Free env Unit (modify fun h => { h with regs := r.1, shallExit := h.shallExit || r.2 })
  | niceCall (op : Op) (x y : Word) : Free env Word (niceCall env op x y)
  | world (f : World W → World W) : Free env Unit (onWorld f)

/-- The parts of all instructions but the returns. -/
inductive Part (env : Env W) : (α : Type) → M W α → Prop
  | keep {α : Type} {m : M W α} (h : Keep env α m) : Part env α m
  | last {α : Type} {m : M W α} (h : Last env α m) : Part env α m
  | free {α : Type} {m : M W α} (h : Free env α m) : Part env α m
  | amo (f : Word → Word → Word) (i : Instruction) (regs : RegIdx → Word) :
      Part env _ (access (env.executeAmo f i regs))

/-- `m` writes no register and no memory before a trap. -/
abbrev Stages (env : Env W) (m : M W α) : Prop := Staged (Keep env) (Last env) (Free env) m

/-- `P` covers the quiet parts. -/
class Covers (env : outParam (Env W)) (P : (α : Type) → M W α → Prop) : Prop where
  quiet : ∀ {α : Type} {m : M W α}, Quiet env α m → P α m

instance (env : Env W) : Covers env (Keep env) := ⟨.quiet⟩

instance (env : Env W) : Covers env (Free env) := ⟨.quiet⟩

theorem not_unknownLevel_assertion : ¬UnknownLevel .assertion := by
  rintro ⟨mode, h⟩
  cases h

theorem not_unknownLevel_trap (e : SimulationTrap) : ¬UnknownLevel (.trap e) := by
  rintro ⟨mode, h⟩
  cases h

theorem not_unknownLevel_unknownOpcode : ¬UnknownLevel (.runtimeError "unknown opcode") := by
  rintro ⟨mode, h⟩
  injection h with h
  revert mode
  decide

section

variable {env : Env W}

instance {m : M W α} [h : Stages env m] : Made (Part env) m :=
  h.made (fun h => .part (.keep h)) (fun h => .part (.last h)) fun h => .part (.free h)

/-! ### Quiet parts -/

section Quiet

variable {P : (α : Type) → M W α → Prop} [Covers env P]

instance : Made P (get : M W (Hart W)) := .part (Covers.quiet .get)

theorem made_setCsrs (f : Csrs → Csrs) (hf : env.KeepsEpcs f) : Made P (setCsrs f) :=
  .part (Covers.quiet (.csrs f hf))

instance (f : BitField) (v : BitVec f.len) : Made P (setMstatus f v) :=
  made_setCsrs _ ⟨fun _ => rfl, fun _ h => h⟩

instance (flags : Byte) : Made P (setExceptionFlags flags : M W Unit) :=
  .part (Covers.quiet (.exceptionFlags flags))

instance (n : ℤ) : Made P (setLrScCounter n) := .part (Covers.quiet (.lrScCounter n))

instance : Made P (ebreak : M W Unit) := .part (Covers.quiet .ebreak)

instance : Made P (throw .assertion : M W α) := by
  refine .part (Covers.quiet (.abort _ ?_ not_unknownLevel_assertion))
  rintro ⟨trap, h⟩
  cases h

instance : Made P (unknownOpcode : M W Unit) := by
  refine .part (Covers.quiet (.abort _ ?_ not_unknownLevel_unknownOpcode))
  rintro ⟨trap, h⟩
  cases h

instance (c : Hart W → Bool) : Made P (assert c) := by
  unfold assert
  infer_instance

instance (r : RegIdx) : Made P (reg r : M W Word) := by
  unfold reg
  infer_instance

instance (r : RegIdx) : Made P (regShamt r : M W ℕ) := by
  unfold regShamt
  infer_instance

instance (f : Csrs → Word) : Made P (readCsrs f : M W Word) := by
  unfold readCsrs
  infer_instance

instance : Made P (computeAndGetCurrentCycles : M W (BitVec 64)) := by
  unfold computeAndGetCurrentCycles
  infer_instance

instance : Made P (fpSetDirty : M W Unit) := by
  unfold fpSetDirty
  infer_instance

instance : Made P (fpUpdateExceptionFlags : M W Unit) := by
  have (flags : Byte) : Made P (setCsrs fun c =>
      { c with fcsr := Fcsr.fflags.put (Fcsr.fflags.get c.fcsr ||| flags.setWidth 5) c.fcsr } :
      M W Unit) := made_setCsrs _ ⟨fun _ => rfl, fun _ h => h⟩
  unfold fpUpdateExceptionFlags
  infer_instance

instance : Made P (fpFinishInstr : M W Unit) := by
  unfold fpFinishInstr
  infer_instance

instance (f : BitVec 3 → α × Byte) : Made P (softfloat f : M W α) := by
  unfold softfloat
  infer_instance

instance {n : ℕ} (u : SoftFloat n) (r : RegIdx) : Made P (fpReg u r : M W (BitVec n)) := by
  unfold fpReg
  infer_instance

instance {n : ℕ} (u : SoftFloat n) (a b : BitVec n) : Made P (fpBefore u a b : M W Bool) := by
  unfold fpBefore
  infer_instance

end Quiet

/-! ### Checks and loads -/

instance (reason : ExceptionCode) (mtval : BitVec 64) :
    Made (Keep env) (raiseTrap reason mtval : M W α) := .part (.trap _)

instance (e : Option SimulationTrap) : Made (Keep env) (raiseIfSome e : M W Unit) := by
  cases e with
  | none => exact .pure ()
  | some e => exact .part (.trap e)

instance : Made (Keep env) (raiseIllegalInstruction : M W α) := by
  unfold raiseIllegalInstruction
  infer_instance

instance (c : Hart W → Bool) : Made (Keep env) (illegalIf c) := by
  unfold illegalIf
  infer_instance

instance (x : IsaExt) : Made (Keep env) (requireIsa x : M W Unit) := by
  unfold requireIsa
  infer_instance

instance (n : ℕ) (isLoad : Bool) (addr : Word) :
    Made (Keep env) (trapCheckAddrAlignment env n isLoad addr) := by
  unfold trapCheckAddrAlignment
  infer_instance

instance (addr : Word) : Made (Keep env) (noCheck addr : M W Unit) := .pure ()

instance (f : Access W α) [hf : env.Reads f] : Made (Keep env) (access f) := .part (.read f hf)

instance : Made (Keep env) (releaseLrScReservation env) := by
  unfold releaseLrScReservation
  infer_instance

instance : Made (Keep env) (fpPrepareInstr : M W Unit) := by
  unfold fpPrepareInstr fpRequireNotOff
  infer_instance

instance : Made (Keep env) (fpSetupRm : M W Unit) := by
  have : Made (Keep env) (modify fun h => { h with softfloatRoundingMode := roundingMode h } :
    M W Unit) := .part (.quiet .roundingMode)
  unfold fpSetupRm
  infer_instance

/-! ### CSR accesses -/

instance (addr : CsrAddr) (isWrite : Bool) :
    Made (Keep env) (isInvalidCsrAccess addr isWrite : M W Bool) := by
  unfold isInvalidCsrAccess
  infer_instance

instance (addr : CsrAddr) :
    Made (Keep env) (validateCsrCounterReadAccessRights addr : M W Unit) := by
  unfold validateCsrCounterReadAccessRights
  infer_instance

instance : Made (Keep env) (readTime env) := by
  have hmtime : Made (Keep env) (onWorld fun w => (env.updateAndGetMtime w).2) := .part .mtime
  have (mtime : BitVec 64) : Made (Keep env) (setCsrs fun c => { c with time := mtime } :
    M W Unit) := made_setCsrs _ ⟨fun _ => rfl, fun _ h => h⟩
  unfold readTime
  infer_instance

instance (m : M W (BitVec 64)) [Made (Keep env) m] : Made (Keep env) (readCycle m) := by
  have (cycles : BitVec 64) : Made (Keep env) (setCsrs fun c => { c with cycle := cycles } :
    M W Unit) := made_setCsrs _ ⟨fun _ => rfl, fun _ h => h⟩
  unfold readCycle
  infer_instance

instance (addr : CsrAddr) : Made (Keep env) (readDefault env addr) := by
  unfold readDefault
  infer_instance

instance (m : M W (BitVec 64)) [Made (Keep env) m] (addr : CsrAddr) :
    Made (Keep env) (getCsrValue env m addr) := by
  unfold getCsrValue
  cases csrName env addr <;> infer_instance

/-- A write of a return address keeps to the mask. -/
theorem keepsEpcs_write (m : Mode) (value : Word) (f : Csrs → Csrs)
    (hmisa : ∀ c, (f c).misa = c.misa)
    (hepc : ∀ c, (f c).epc m = writeMasked (c.epc m) value (env.pcAlignmentMask c.misa))
    (hother : ∀ c m', m' ≠ m → (f c).epc m' = c.epc m') : env.KeepsEpcs f := by
  refine ⟨hmisa, fun c h m' => ?_⟩
  rw [hmisa]
  by_cases hm : m' = m
  · rw [hm, hepc, writeMasked_and_not]
    exact h m
  · rw [hother c m' hm]
    exact h m'

instance (addr : CsrAddr) (value : Word) : Made (Keep env) (setCsrValue env addr value) := by
  have hdefault (haddr : ¬NamesReturn env addr) :
      Made (Keep env) (setCsrs fun c => env.defaultWrite32 c addr value) :=
    .part (.quiet (.defaultWrite addr value haddr))
  unfold NamesReturn at hdefault
  unfold setCsrValue
  cases hname : csrName env addr
  case satp =>
    have : Made (Keep env) (setCsrs fun c =>
        { c with satp := writeMasked c.satp value env.masks.satp } : M W Unit) :=
      made_setCsrs _ ⟨fun _ => rfl, fun _ h => h⟩
    infer_instance
  case mepc =>
    refine made_setCsrs _ (keepsEpcs_write .machine value _ (fun _ => rfl) (fun _ => rfl) ?_)
    rintro c (_ | _ | _) hm <;> first | rfl | exact absurd rfl hm
  case sepc =>
    refine made_setCsrs _ (keepsEpcs_write .supervisor value _ (fun _ => rfl) (fun _ => rfl) ?_)
    rintro c (_ | _ | _) hm <;> first | rfl | exact absurd rfl hm
  case uepc =>
    refine made_setCsrs _ (keepsEpcs_write .user value _ (fun _ => rfl) (fun _ => rfl) ?_)
    rintro c (_ | _ | _) hm <;> first | rfl | exact absurd rfl hm
  all_goals first
    | infer_instance
    | (have hwrite := hdefault (by simp [hname]); infer_instance)
    | exact made_setCsrs _ ⟨fun _ => rfl, fun _ h => h⟩

/-! ### Writes -/

instance (r : RegIdx) (v : Word) : Made (Free env) (setReg r v : M W Unit) := .part (.regs _)

instance {n : ℕ} (u : SoftFloat n) (r : RegIdx) (v : BitVec n) :
    Made (Free env) (fpWrite u r v : M W Unit) := .part (.fpRegs _)

instance (op : Op) (x y : Word) : Made (Free env) (niceCall env op x y) :=
  .part (.niceCall op x y)

instance (f : World W → World W) : Made (Free env) (onWorld f) := .part (.world f)

instance (f : Access W α) [hf : env.Stores f] : Stages env (access f) := .last (.store f hf)

/-! ### What the parts raise -/

theorem quiet_error {m : M W α} (hm : Quiet env α m) {h h' : Hart W} {e : Raise}
    (hr : m h = .error e h') : ¬IsTrap e ∧ ¬UnknownLevel e := by
  cases hm with
  | abort e htrap hlevel =>
    cases hr
    exact ⟨htrap, hlevel⟩
  | _ => cases hr

/-- The driver of the coprocessor only blocks. -/
theorem niceCall_error {op : Op} {x y : Word} {h h' : Hart W} {e : Raise}
    (hr : niceCall env op x y h = .error e h') : e = .blocked := by
  unfold niceCall at hr
  split at hr
  · dsimp only at hr
    split at hr
    · cases hr
    · cases hr
      rfl
  · cases hr

/-- A jump to a misaligned address raises a trap, with `pc` already written. -/
theorem jump_eq (f : Hart W → Word) (h : Hart W) :
    (do modify fun h => { h with pc := f h }; trapCheckPcAlignment env : M W Unit) h =
      match env.trapCheckPcAlignment h.csrs.misa (f h) with
      | none => .ok () { h with pc := f h }
      | some e => .error (.trap e) { h with pc := f h } := by
  show raiseIfSome (env.trapCheckPcAlignment h.csrs.misa (f h)) { h with pc := f h } = _
  cases env.trapCheckPcAlignment h.csrs.misa (f h) <;> rfl

theorem free_error {m : M W α} (hm : Free env α m) {h h' : Hart W} {e : Raise}
    (hr : m h = .error e h') : ¬IsTrap e ∧ ¬UnknownLevel e := by
  cases hm with
  | quiet hm => exact quiet_error hm hr
  | niceCall op x y =>
    rw [niceCall_error hr]
    constructor
    · rintro ⟨trap, he⟩
      cases he
    · rintro ⟨mode, he⟩
      cases he
  | _ => cases hr

/-! ### Floating-point cases -/

section Float

variable {n : ℕ} (x : IsaExt) (u : SoftFloat n) (i : Instruction)

instance (f : BitVec 3 → BitVec n → BitVec n → BitVec n × Byte) :
    Stages env (fpBinary x u i f : M W Unit) := by
  unfold fpBinary
  infer_instance

instance : Stages env (fpSqrt x u i : M W Unit) := by
  unfold fpSqrt
  infer_instance

instance (f1 f3 : BitVec n → BitVec n) : Stages env (fpFused x u i f1 f3 : M W Unit) := by
  unfold fpFused
  infer_instance

instance (first : BitVec n → BitVec n → M W Bool) [∀ a b, Made (Keep env) (first a b)] :
    Stages env (fpSelect x u i first) := by
  unfold fpSelect
  infer_instance

instance (f : BitVec n → BitVec 3 → Bool → Word × Byte) :
    Stages env (fpToInt x u i f : M W Unit) := by
  unfold fpToInt
  infer_instance

instance (f : BitVec 3 → Word → BitVec n × Byte) : Stages env (fpOfInt x u i f : M W Unit) := by
  unfold fpOfInt
  infer_instance

instance {m : ℕ} (v : SoftFloat m) (f : BitVec 3 → BitVec m → BitVec n × Byte) :
    Stages env (fpConvert x u i v f : M W Unit) := by
  unfold fpConvert
  infer_instance

instance (f : BitVec n → BitVec n → BitVec n) : Stages env (fpSign x u i f : M W Unit) := by
  unfold fpSign
  infer_instance

instance (f : BitVec n → BitVec n → Bool × Byte) :
    Stages env (fpCompare x u i f : M W Unit) := by
  unfold fpCompare
  infer_instance

instance : Stages env (fpClass x u i : M W Unit) := by
  unfold fpClass
  infer_instance

instance (op : Opcode) : Stages env (execFloat env i op) := by
  have hunknown : Stages env (throw (.runtimeError "unknown opcode") : M W Unit) :=
    inferInstanceAs (Stages env (unknownOpcode : M W Unit))
  unfold execFloat
  split <;> first
    | infer_instance
    | unfold flw; infer_instance
    | unfold fsw; infer_instance
    | unfold fld; infer_instance
    | unfold fsd; infer_instance
    | unfold fmvWX; infer_instance
    | unfold fmvXW; infer_instance

end Float

/-! ### The cases with one text -/

/-- `uret`, `sret` and `mret`. -/
def IsReturn (op : Opcode) : Prop := op = .uret ∨ op = .sret ∨ op = .mret

instance : Stages env (ecall env) := by
  unfold ecall
  cases hf : env.executeSyscall with
  | none => exact .keep (.part .ecallTrap)
  | some f =>
    have (h : Hart W) : env.Stores fun _ => f h.csrs.misa h.csrs.mhartid h.regs :=
      .executeSyscall hf _ _ _
    have (r : (RegIdx → Word) × Bool) : Made (Free env) (modify fun h =>
      { h with regs := r.1, shallExit := h.shallExit || r.2 } : M W Unit) := .part (.exit r)
    unfold syscall
    infer_instance

instance : Stages env (wfi env) := by
  unfold wfi
  infer_instance

instance : Stages env (sfenceVma env) := by
  unfold sfenceVma
  infer_instance

theorem staged_execShared (i : Instruction) {op : Opcode} (hop : ¬IsReturn op) :
    Stages env (execShared env i op) := by
  unfold execShared
  split <;> first
    | infer_instance
    | simp [IsReturn] at hop

instance (i : Instruction) (f : Word → Word → Word) : Made (Part env) (executeAmo env i f) := by
  have (regs : RegIdx → Word) : Made (Part env) (access (env.executeAmo f i regs)) :=
    .part (.amo f i regs)
  have (r : (RegIdx → Word) × Option SimulationTrap) : Made (Part env) (modify fun h =>
    { h with regs := r.1 } : M W Unit) := .part (.free (.regs _))
  unfold executeAmo
  infer_instance

/-! ### Without `PIPELINE_TIMING` -/

section Plain

variable (i : Instruction)

/-- The cases that read a CSR into a register before they write it. -/
def IsCsr (op : Opcode) : Prop :=
  op = .csrrw ∨ op = .csrrs ∨ op = .csrrc ∨ op = .csrrwi ∨ op = .csrrsi ∨ op = .csrrci

/-- The CSR instruction writes. -/
def WritesCsr (i : Instruction) (op : Opcode) : Prop :=
  op = .csrrw ∨ op = .csrrwi ∨ (op = .csrrs ∨ op = .csrrc) ∧ i.rs1 ≠ 0 ∨
    (op = .csrrsi ∨ op = .csrrci) ∧ i.zimm ≠ 0

instance (i : Instruction) (op : Opcode) : Decidable (WritesCsr i op) :=
  inferInstanceAs (Decidable (_ ∨ _ ∨ _ ∧ _ ∨ _ ∧ _))

/-- The cases that are put together in stages. -/
def IsStaged (op : Opcode) : Prop :=
  ¬IsReturn op ∧ ¬IsCsr op ∧ op ≠ .scW ∧ amoOperation op = none

instance (f : Word → Word → Word) : Stages env (opImmPlain i f : M W Unit) := by
  unfold opImmPlain
  infer_instance

instance (f : Word → Word → Word) : Stages env (opPlain i f : M W Unit) := by
  unfold opPlain
  infer_instance

instance (f : Word → ℕ → Word) : Stages env (shiftPlain i f : M W Unit) := by
  unfold shiftPlain
  infer_instance

instance (f : Word → ℕ → Word) : Stages env (shiftImmPlain i f : M W Unit) := by
  unfold shiftImmPlain
  infer_instance

/-- The jump, and what follows the check of its address. -/
theorem staged_jump (f : Hart W → Word) {k : Unit → M W α} [∀ u, Stages env (k u)] :
    Stages env (do modify fun h => { h with pc := f h }; trapCheckPcAlignment env; k ()) := by
  rw [← bind_assoc]
  exact .afterKeep (.part (.jump f)) fun _ => inferInstance

instance : Stages env (jalPlain env i) := by
  unfold jalPlain
  refine .afterKeep inferInstance fun h => ?_
  exact staged_jump (k := fun _ => setReg i.rd h.pc) fun _ => h.lastPc + i.jImm

instance : Stages env (jalrPlain env i) := by
  unfold jalrPlain
  refine .afterKeep inferInstance fun h => ?_
  exact staged_jump (k := fun _ => setReg i.rd h.pc) fun _ => (h.regs i.rs1 + i.iImm) &&& ~~~1

instance (check : Word → M W Unit) [∀ addr, Made (Keep env) (check addr)]
    (f : Word → Word → Access W Unit) [∀ addr v, env.Stores (f addr v)] :
    Stages env (storePlain i check f) := by
  unfold storePlain
  infer_instance

instance (check : Word → M W Unit) [∀ addr, Made (Keep env) (check addr)]
    (f : Word → Access W Word) [∀ addr, env.Reads (f addr)] :
    Stages env (loadPlain i check f) := by
  unfold loadPlain
  infer_instance

instance : Made (Keep env) (takeBranch env i) := .part (.jump _)

instance (c : Word → Word → Bool) : Stages env (branchPlain env i c) := by
  unfold branchPlain
  infer_instance

instance (f : Word → Word → Word) : Stages env (mulPlain i f : M W Unit) := by
  unfold mulPlain
  infer_instance

instance : Stages env (lrWPlain env i) := by
  unfold lrWPlain
  infer_instance

instance : Stages env (custom3Plain env i) := by
  unfold custom3Plain
  split <;> infer_instance

theorem staged_execPlain {op : Opcode} (hop : IsStaged op) : Stages env (execPlain env i op) := by
  obtain ⟨hreturn, hcsr, hsc, hamo⟩ := hop
  have hshared : Stages env (execShared env i op) := staged_execShared i hreturn
  unfold execPlain
  split <;> first
    | infer_instance
    | unfold luiPlain; infer_instance
    | unfold auipcPlain; infer_instance
    | exact absurd rfl hsc
    | rw [hamo]; exact hshared
    | exact absurd (by simp [IsCsr]) hcsr

instance (value : M W Word) [Made (Part env) value] : Made (Part env) (csrWritePlain env i value) := by
  unfold csrWritePlain csrToRdPlain csrValuePlain
  infer_instance

instance (w : Bool) (value : M W Word) [Made (Part env) value] (f : Word → Word → Word) :
    Made (Part env) (csrChangePlain env i w value f) := by
  unfold csrChangePlain setRdPlain csrValuePlain
  infer_instance

instance : Made (Part env) (scWPlain env i) := by
  unfold scWPlain
  infer_instance

theorem made_execPlain {op : Opcode} (hop : ¬IsReturn op) :
    Made (Part env) (execPlain env i op) := by
  have hshared : Stages env (execShared env i op) := staged_execShared i hop
  unfold execPlain
  split <;> first
    | infer_instance
    | unfold luiPlain; infer_instance
    | unfold auipcPlain; infer_instance
    | split <;> infer_instance

end Plain

/-! ### With `PIPELINE_TIMING` -/

/-- A call of the pipeline timing model that it can make in any valid state. -/
class LegalCall (call : Pipeline → Option Pipeline) : Prop where
  legal : ∀ p p', call p = some p' → ∃ c, Call.Legal c ∧ p.call c = some p'

/-- The parts of the build with the pipeline timing model. -/
inductive Timed (env : Env W) (P : (α : Type) → M W α → Prop) : (α : Type) → PM W α → Prop
  | lift {α : Type} {m : M W α} (h : P α m) : Timed env P α (lift m)
  | get : Timed env P (TimedHart W) get
  | charge (call : Pipeline → Option Pipeline) (h : LegalCall call) :
      Timed env P Unit (charge call)
  | amoCharge (i : Instruction) :
      Timed env P Unit (charge fun p => some (env.amoCharge i p))

theorem lift_bind (m : M W α) (k : α → M W β) :
    lift (m >>= k) = lift m >>= fun a => lift (k a) := by
  funext t
  show lift (m >>= k) t = EStateM.bind (lift m) (fun a => lift (k a)) t
  unfold EStateM.bind
  cases hm : m t.hart with
  | ok a h =>
    rw [lift_of_ok hm]
    show lift (m >>= k) t = lift (k a) { t with hart := h }
    unfold lift
    rw [bind_of_ok hm]
  | error e h => rw [lift_of_error hm, lift_of_error (bind_of_error hm)]

section Timed

variable {P Q : (α : Type) → M W α → Prop}

theorem Timed.mono (hPQ : ∀ {α : Type} {m : M W α}, P α m → Q α m) {m : PM W α}
    (h : Timed env P α m) : Timed env Q α m := by
  cases h with
  | lift h => exact .lift (hPQ h)
  | get => exact .get
  | charge call h => exact .charge call h
  | amoCharge i => exact .amoCharge i

theorem made_lift {m : M W α} (h : Made P m) : Made (Timed env P) (lift m) := by
  induction h with
  | part h => exact .part (.lift h)
  | pure a => exact .pure a
  | bind _ _ ihm ihk =>
    rw [lift_bind]
    exact .bind ihm ihk

instance {m : M W α} [h : Made P m] : Made (Timed env P) (lift m) := made_lift h

instance : Made (Timed env P) (get : PM W (TimedHart W)) := .part .get

instance (call : Pipeline → Option Pipeline) [h : LegalCall call] :
    Made (Timed env P) (charge call : PM W Unit) := .part (.charge call h)

instance (r : RegIdx) : LegalCall fun p => p.accessRegister r.toNat :=
  ⟨fun _ _ hp => ⟨.accessRegister r.toNat, trivial, hp⟩⟩

instance (n : ℤ) : LegalCall fun p => p.advance n := by
  refine ⟨fun p p' hp => ⟨.advance n, ?_, hp⟩⟩
  by_contra hn
  rw [Pipeline.advance_of_nonpos p (not_lt.1 hn)] at hp
  cases hp

instance (range : Range) : LegalCall fun p => some (p.reserveStore range 1) :=
  ⟨fun _ _ hp => ⟨.reserveStore range 1, Call.legal_reserveStore range, hp⟩⟩

instance (range : Range) (r : ℕ) : LegalCall fun p => p.doLoad range r 2 :=
  ⟨fun _ _ hp => ⟨.doLoad range r 2, Call.legal_doLoad range r, hp⟩⟩

instance (r : ℕ) (a b : Word) : LegalCall fun p => p.doMult r a b :=
  ⟨fun _ _ hp => ⟨.doMult r a b, trivial, hp⟩⟩

instance (r : ℕ) (a b : Word) : LegalCall fun p => p.doDiv r a b :=
  ⟨fun _ _ hp => ⟨.doDiv r a b, trivial, hp⟩⟩

instance (r : ℕ) : LegalCall fun p => p.doCsr r :=
  ⟨fun _ _ hp => ⟨.doCsr r, trivial, hp⟩⟩

instance (r : RegIdx) : Made (Timed env P) (accessRegister r : PM W Unit) := by
  unfold accessRegister
  infer_instance

variable [Covers env P]

instance (r : RegIdx) : Made (Timed env P) (read r : PM W Word) := by
  unfold read
  infer_instance

instance (r : RegIdx) : Made (Timed env P) (uRead r : PM W Word) := by
  unfold uRead
  infer_instance

instance (r : RegIdx) : Made (Timed env P) (shamt r : PM W ℕ) := by
  unfold shamt
  infer_instance

end Timed

section Pipelined

/-- `m` writes no register and no memory before a trap. -/
abbrev TimedStages (env : Env W) (m : PM W α) : Prop :=
  Staged (Timed env (Keep env)) (Timed env (Last env)) (Timed env (Free env)) m

theorem staged_lift {K : (α : Type) → M W α → Prop} {m : M W α}
    (h : Staged K (Last env) (Free env) m) :
    Staged (Timed env K) (Timed env (Last env)) (Timed env (Free env)) (lift m) := by
  induction h with
  | keep h => exact .keep (made_lift h)
  | last h => exact .last (.lift h)
  | free h => exact .free (made_lift h)
  | afterKeep hm _ ihk =>
    rw [lift_bind]
    exact .afterKeep (made_lift hm) ihk
  | beforeFree _ hk ihm =>
    rw [lift_bind]
    exact .beforeFree ihm fun a => made_lift (hk a)

instance {m : M W α} [h : Stages env m] : TimedStages env (lift m) := staged_lift h

instance {m : PM W α} [h : TimedStages env m] : Made (Timed env (Part env)) m :=
  h.made (fun h => .part (h.mono .keep)) (fun h => .part (h.mono .last))
    fun h => .part (h.mono .free)

instance (r : RegIdx) (v : Word) : Made (Timed env (Free env)) (write r v : PM W Unit) := by
  unfold write
  infer_instance

variable (i : Instruction)

instance (f : Word → Word → Word) : TimedStages env (opImmPipeline i f : PM W Unit) := by
  unfold opImmPipeline
  infer_instance

instance (f : Word → Word → Word) : TimedStages env (uOpImmPipeline i f : PM W Unit) := by
  unfold uOpImmPipeline
  infer_instance

instance (f : Word → Word → Word) : TimedStages env (opPipeline i f : PM W Unit) := by
  unfold opPipeline
  infer_instance

instance (f : Word → Word → Word) : TimedStages env (uOpPipeline i f : PM W Unit) := by
  unfold uOpPipeline
  infer_instance

instance (f : Word → ℕ → Word) : TimedStages env (shiftPipeline i f : PM W Unit) := by
  unfold shiftPipeline
  infer_instance

instance (f : Word → ℕ → Word) : TimedStages env (uShiftPipeline i f : PM W Unit) := by
  unfold uShiftPipeline
  infer_instance

instance (f : Word → ℕ → Word) : TimedStages env (shiftImmPipeline i f : PM W Unit) := by
  unfold shiftImmPipeline
  infer_instance

instance (f : Word → ℕ → Word) : TimedStages env (uShiftImmPipeline i f : PM W Unit) := by
  unfold uShiftImmPipeline
  infer_instance

/-- The jump, and what follows the check of its address. -/
theorem timedStages_jump (f : Hart W → Word) {k : Unit → PM W α} [∀ u, TimedStages env (k u)] :
    TimedStages env (do
      lift (modify fun h => { h with pc := f h }); lift (trapCheckPcAlignment env); k ()) := by
  rw [← bind_assoc, ← lift_bind]
  exact .afterKeep (.part (.lift (.jump f))) fun _ => inferInstance

instance : TimedStages env (jalPipeline env i) := by
  unfold jalPipeline
  refine .afterKeep inferInstance fun t => ?_
  exact timedStages_jump (k := fun _ => write i.rd t.hart.pc) fun _ => t.hart.lastPc + i.jImm

instance : TimedStages env (jalrPipeline env i) := by
  unfold jalrPipeline
  refine .afterKeep inferInstance fun t => ?_
  exact timedStages_jump (k := fun _ => write i.rd t.hart.pc) fun _ =>
    (t.hart.regs i.rs1 + i.iImm) &&& ~~~1

instance (size : ℕ) (check : Word → M W Unit) [∀ addr, Made (Keep env) (check addr)]
    (f : Word → Word → Access W Unit) [∀ addr v, env.Stores (f addr v)] :
    TimedStages env (storePipeline i size check f) := by
  unfold storePipeline
  infer_instance

instance (size : ℕ) (check : Word → M W Unit) [∀ addr, Made (Keep env) (check addr)]
    (f : Word → Access W Word) [∀ addr, env.Reads (f addr)] :
    TimedStages env (loadPipeline i size check f) := by
  unfold loadPipeline
  infer_instance

instance (c : Word → Word → Bool) : TimedStages env (branchPipeline env i c) := by
  unfold branchPipeline
  infer_instance

instance (c : Word → Word → Bool) : TimedStages env (uBranchPipeline env i c) := by
  unfold uBranchPipeline
  infer_instance

instance (f : Word → Word → Word) : TimedStages env (mulPipeline i f : PM W Unit) := by
  unfold mulPipeline
  infer_instance

instance (f : Word → Word → Word) : TimedStages env (divPipeline i f : PM W Unit) := by
  unfold divPipeline
  infer_instance

instance (op : Op) : Made (Timed env (Free env)) (advanceNice op : PM W Unit) := by
  unfold advanceNice
  infer_instance

instance : TimedStages env (custom3Pipeline env i) := by
  unfold custom3Pipeline
  split <;> infer_instance

theorem staged_execPipeline {op : Opcode} (hop : IsStaged op) :
    TimedStages env (execPipeline env i op) := by
  obtain ⟨hreturn, hcsr, hsc, hamo⟩ := hop
  have hshared : Stages env (execShared env i op) := staged_execShared i hreturn
  unfold execPipeline
  split <;> first
    | infer_instance
    | unfold luiPipeline; infer_instance
    | unfold auipcPipeline; infer_instance
    | unfold mulhsuPipeline; infer_instance
    | unfold lrWPipeline; infer_instance
    | exact absurd rfl hsc
    | rw [hamo]; infer_instance
    | exact absurd (by simp [IsCsr]) hcsr

instance (addr : CsrAddr) : Made (Timed env (Keep env)) (csrValuePipeline env addr) := by
  unfold csrValuePipeline
  infer_instance

instance (value : PM W Word) [Made (Timed env (Part env)) value] :
    Made (Timed env (Part env)) (csrWritePipeline env i value) := by
  unfold csrWritePipeline csrToRdPipeline
  infer_instance

instance (checked w : Bool) (value : PM W Word) [Made (Timed env (Part env)) value]
    (f : Word → Word → Word) :
    Made (Timed env (Part env)) (csrChangePipeline env i checked w value f) := by
  unfold csrChangePipeline setRdPipeline
  infer_instance

instance : Made (Timed env (Part env)) (scWPipeline env i) := by
  unfold scWPipeline
  infer_instance

instance (f : Word → Word → Word) :
    Made (Timed env (Part env)) (executeAmoPipeline env i f) := by
  have : Made (Timed env (Part env)) (charge fun p => some (env.amoCharge i p) : PM W Unit) :=
    .part (.amoCharge i)
  unfold executeAmoPipeline
  infer_instance

theorem made_execPipeline {op : Opcode} (hop : ¬IsReturn op) :
    Made (Timed env (Part env)) (execPipeline env i op) := by
  have hshared : Stages env (execShared env i op) := staged_execShared i hop
  unfold execPipeline
  split <;> first
    | infer_instance
    | unfold luiPipeline; infer_instance
    | unfold auipcPipeline; infer_instance
    | unfold mulhsuPipeline; infer_instance
    | unfold lrWPipeline; infer_instance
    | split <;> infer_instance

end Pipelined

/-! ### Both builds -/

variable (b : Build) (i : Instruction) {op : Opcode}

/-- An instruction other than a return is made of the parts of this module. -/
theorem made_exec (hop : ¬IsReturn op) : Made (Timed env (Part env)) (exec env b i op) := by
  cases b with
  | plain => exact made_lift (made_execPlain i hop)
  | pipeline => exact made_execPipeline i hop

/-- An instruction that is no return, no CSR access, no atomic operation and no store-conditional
writes registers and memory where no trap can follow. -/
theorem staged_exec (hop : IsStaged op) : TimedStages env (exec env b i op) := by
  cases b with
  | plain => exact staged_lift (staged_execPlain i hop)
  | pipeline => exact staged_execPipeline i hop

/-! ### Fetch -/

/-- The parts of fetch and decoding. -/
inductive FetchPart (env : Env W) : (α : Type) → M W α → Prop
  | get : FetchPart env (Hart W) get
  | raise {α : Type} (e : Raise) (hlevel : ¬UnknownLevel e) : FetchPart env α (throw e)
  | loadInstr : FetchPart env Unit (loadInstr env)
  | decode (f : Hart W → Opcode × Instruction × Word) : FetchPart env Unit (modify fun h =>
      { h with op := (f h).1, instr := (f h).2.1, pc := (f h).2.2 })

/-- The load of the instruction word writes no more than the opcode and the instruction. -/
theorem loadInstr_final (env : Env W) (h : Hart W) : ∃ op instr, final (Vcil.Iss.loadInstr env h) =
    { h.setWorld (env.loadInstr h.pc h.memView h.world).2 with op := op, instr := instr } := by
  unfold Vcil.Iss.loadInstr access
  rcases env.loadInstr h.pc h.memView h.world with ⟨e | memWord, w⟩
  · cases e with
    | trap e => exact ⟨.undef, env.instruction 0, rfl⟩
    | _ => exact ⟨h.op, h.instr, rfl⟩
  · exact ⟨h.op, env.instruction memWord, rfl⟩

theorem made_fetch : Made (FetchPart env) (fetch env) := by
  have hget : Made (FetchPart env) (get : M W (Hart W)) := .part .get
  have hassertion : Made (FetchPart env) (throw .assertion : M W Unit) :=
    .part (.raise _ not_unknownLevel_assertion)
  have hillegal (reason : ExceptionCode) (mtval : BitVec 64) :
      Made (FetchPart env) (raiseTrap reason mtval : M W Unit) :=
    .part (.raise _ (not_unknownLevel_trap _))
  have hload : Made (FetchPart env) (Vcil.Iss.loadInstr env) := .part .loadInstr
  have hnormal : Made (FetchPart env) (decodeNormal env) :=
    .part (.decode fun h => (env.decodeNormal h.instr, h.instr, h.pc + 4))
  have hcompressed : Made (FetchPart env) (decodeCompressed env) := by
    let expand (h : Hart W) := env.decodeAndExpandCompressed h.instr
    refine .bind (.part (.decode fun h => ((expand h).1, (expand h).2, h.pc + 2))) fun _ => ?_
    unfold illegalIf raiseIllegalInstruction
    infer_instance
  unfold fetch decode assert
  infer_instance

/-! ### What follows an instruction -/

/-- The parts of the bookkeeping after an instruction. -/
inductive StepPart (env : Env W) : (α : Type) → M W α → Prop
  | quiet {α : Type} {m : M W α} (h : Quiet env α m) : StepPart env α m
  | world (f : World W → World W) : StepPart env Unit (onWorld f)
  | unlock : StepPart env Unit (access env.atomicUnlock)
  | finishInstr : StepPart env Unit (modify finishInstr)
  | addInstr : StepPart env Unit (modify addInstr)
  | addCycles (n : ℕ) : StepPart env Unit (modify (addCycles n))
  | setCycles (cycles : BitVec 64) : StepPart env Unit (modify (setCycles cycles))

theorem made_afterInstr (b : Build) : Made (Timed env (StepPart env)) (afterInstr env b) := by
  have : Covers env (StepPart env) := ⟨.quiet⟩
  have hunlock : Made (StepPart env) (access env.atomicUnlock) := .part .unlock
  have hlrsc : Made (StepPart env) (countLrSc env) := by
    unfold countLrSc releaseLrScReservation
    infer_instance
  have hworld (f : World W → World W) : Made (StepPart env) (onWorld f) := .part (.world f)
  have hquantum (time : ℕ) : Made (StepPart env) (advanceQuantum env time) := by
    unfold advanceQuantum
    infer_instance
  have hinstr : Made (StepPart env) (modify Vcil.Iss.addInstr : M W Unit) := .part .addInstr
  have hcycles (n : ℕ) : Made (StepPart env) (modify (Vcil.Iss.addCycles n) : M W Unit) :=
    .part (.addCycles n)
  have hset (cycles : BitVec 64) :
      Made (StepPart env) (modify (Vcil.Iss.setCycles cycles) : M W Unit) :=
    .part (.setCycles cycles)
  have hfinish : Made (StepPart env) (modify Vcil.Iss.finishInstr : M W Unit) := .part .finishInstr
  unfold afterInstr performanceAndSyncUpdate countInstr advanceCycles
  cases b <;> infer_instance

end

/-- The returns have one text. -/
theorem exec_return (env : Env W) (b : Build) (i : Instruction) {op : Opcode} (hop : IsReturn op) :
    exec env b i op = lift (execShared env i op) := by
  rcases hop with rfl | rfl | rfl <;> cases b <;> rfl

/-- A return leaves the handler of its mode, or is an illegal instruction. -/
theorem return_cases (env : Env W) (i : Instruction) {op : Opcode} (hop : IsReturn op)
    (h : Hart W) :
    (∃ m : Mode, (m = .machine → op = .mret) ∧ execShared env i op h = .ok () (h.leave m)) ∨
      execShared env i op h = .error (.trap ⟨excIllegalInstr, h.instr.data.setWidth 64⟩) h := by
  rcases hop with rfl | rfl | rfl
  · by_cases hillegal : (!hasExt h.csrs.misa .u) = true
    · exact .inr ((illegalIf_bind _ _ h).trans (if_pos hillegal))
    · refine .inl ⟨.user, by simp, ((illegalIf_bind _ _ h).trans (if_neg hillegal)).trans ?_⟩
      exact returnFromTrapHandler_eq .user h
  · by_cases hillegal :
        (!hasExt h.csrs.misa .s || (sMode h && Mstatus.tsr.isSet h.csrs.mstatus)) = true
    · exact .inr ((illegalIf_bind _ _ h).trans (if_pos hillegal))
    · refine .inl ⟨.supervisor, by simp, ((illegalIf_bind _ _ h).trans (if_neg hillegal)).trans ?_⟩
      exact returnFromTrapHandler_eq .supervisor h
  · exact .inl ⟨.machine, fun _ => rfl, returnFromTrapHandler_eq .machine h⟩

end Vcil.Iss
