import Vcil.Iss.CsrInstr
import Vcil.Lib.Noninterference

/-!
# What takes no notice of `TVM`, `TW` and `TSR`

The three bits of `mstatus` that restrict supervisor mode are hidden, and the parts of `run_step` that
do not look at them are shown to be the same from any two states that differ in them only.

* `Hides m`: the mask `m` hides no other bits of `mstatus`;
* `Hart.seen m o`: a hart in which `m` is laid over `mstatus`, and over the register `o`, if any;
* `Ignores` for the families of instructions, and for traps, interrupts and the bookkeeping of time.
-/

-- a case is a chain of ten calls, each an instance
set_option synthInstance.maxSize 512

namespace Vcil.Iss

open Fallible
open Timing (Pipeline)

variable {W α β : Type}

/-! ### Masks -/

namespace Mstatus

/-- `TVM`, `TW` and `TSR`. -/
abbrev controls : BitField := ⟨20, 3⟩

end Mstatus

/-- The mask hides no bits but those three. -/
class Hides (m : Word) : Prop where
  keeps : ∀ k < 32, k < 20 ∨ 23 ≤ k → m.getLsbD k = true

section

variable {m : Word}

/-- Other fields show through the mask. -/
theorem get_and_mask [hm : Hides m] {f : BitField} (hf : f.Fits) (hapart : f.Apart Mstatus.controls)
    (x : Word) : f.get (x &&& m) = f.get x := by
  refine BitVec.eq_of_getLsbD_eq fun k hk => ?_
  have hfits : f.lo + f.len ≤ 32 := hf
  have hcontrols : f.lo + f.len ≤ 20 ∨ 23 ≤ f.lo := hapart
  simp only [BitField.get, BitVec.getLsbD_extractLsb', BitVec.getLsbD_and]
  rw [hm.keeps (f.lo + k) (by omega) (by omega), Bool.and_true]

theorem isSet_and_mask [hm : Hides m] {f : BitField} (hf : f.lo < 32) (hapart : f.lo < 20 ∨ 23 ≤ f.lo)
    (x : Word) : f.isSet (x &&& m) = f.isSet x := by
  unfold BitField.isSet
  rw [BitVec.getLsbD_and, hm.keeps f.lo hf hapart, Bool.and_true]

theorem and_mask_and_mask (x : Word) : x &&& m &&& m = x &&& m := by
  rw [BitVec.and_assoc, BitVec.and_self]

theorem put_and_mask (f : BitField) (v : BitVec f.len) (x : Word) :
    f.put v (x &&& m) &&& m = f.put v x &&& m := by
  refine BitVec.eq_of_getLsbD_eq fun k hk => ?_
  rw [BitVec.getLsbD_and, BitVec.getLsbD_and, BitField.getLsbD_put f v _ hk,
    BitField.getLsbD_put f v _ hk, BitVec.getLsbD_and]
  split
  · rfl
  · cases m.getLsbD k <;> simp

theorem writeMasked_and_mask (x v mask : Word) :
    writeMasked (x &&& m) v mask &&& m = writeMasked x v mask &&& m := by
  refine BitVec.eq_of_getLsbD_eq fun k _ => ?_
  simp only [writeMasked, BitVec.getLsbD_and, BitVec.getLsbD_or]
  cases m.getLsbD k <;> simp

end

/-! ### Views -/

/-- The mask laid over a register. -/
def maskReg (m : Word) : Option RegIdx → (RegIdx → Word) → RegIdx → Word
  | none, regs => regs
  | some r, regs => Function.update regs r (regs r &&& m)

theorem maskReg_maskReg (m : Word) (o : Option RegIdx) (regs : RegIdx → Word) :
    maskReg m o (maskReg m o regs) = maskReg m o regs := by
  cases o with
  | none => rfl
  | some r =>
    simp only [maskReg, Function.update_self, Function.update_idem, and_mask_and_mask]

/-- The hart as it looks through the mask. -/
def Hart.seen (m : Word) (o : Option RegIdx) (h : Hart W) : Hart W :=
  { h with
    regs := maskReg m o h.regs
    csrs := { h.csrs with mstatus := h.csrs.mstatus &&& m } }

def TimedHart.seen (m : Word) (o : Option RegIdx) (t : TimedHart W) : TimedHart W :=
  { t with hart := t.hart.seen m o }

section Parts

variable {m : Word} {o : Option RegIdx}

theorem seen_setCsrs {f : Csrs → Csrs}
    (hf : ∀ c, f { c with mstatus := c.mstatus &&& m } =
      { f c with mstatus := (f c).mstatus &&& m }) :
    Ignores (Hart.seen m o) (setCsrs f : M W Unit) := by
  refine .of_modify_comm fun h => ?_
  show ({ h with regs := _, csrs := f { h.csrs with mstatus := h.csrs.mstatus &&& m } } : Hart W) = _
  rw [hf]
  rfl

theorem seen_status {f : Word → Word} (hf : ∀ x, f (x &&& m) &&& m = f x &&& m) :
    Ignores (Hart.seen m o) (setCsrs fun c => { c with mstatus := f c.mstatus } : M W Unit) := by
  refine .of_modify fun h => ?_
  show ({ h with
    regs := maskReg m o (maskReg m o h.regs)
    csrs := { h.csrs with mstatus := f (h.csrs.mstatus &&& m) &&& m } } : Hart W) = _
  rw [maskReg_maskReg, hf]
  rfl

instance (f : BitField) (v : BitVec f.len) : Ignores (Hart.seen m o) (setMstatus f v : M W Unit) :=
  seen_status (put_and_mask f v)

theorem seen_illegalIf {c : Hart W → Bool} (hc : ∀ h, c (h.seen m o) = c h) :
    Ignores (Hart.seen m o) (illegalIf c) := by
  unfold illegalIf raiseIllegalInstruction raiseTrap
  refine .get_bind (fun h => by rw [hc]) fun h => ?_
  have : Ignores (Hart.seen m o) (do
      let h ← get
      throw (.trap ⟨excIllegalInstr, h.instr.data.setWidth 64⟩) : M W Unit) :=
    .get_bind (fun _ => rfl) fun _ => inferInstance
  infer_instance

theorem seen_assert {c : Hart W → Bool} (hc : ∀ h, c (h.seen m o) = c h) :
    Ignores (Hart.seen m o) (assert c) := by
  unfold assert
  exact .get_bind (fun h => by rw [hc]) fun h => inferInstance

instance (reason : ExceptionCode) (mtval : BitVec 64) :
    Ignores (Hart.seen m o) (raiseTrap reason mtval : M W α) := by
  unfold raiseTrap
  infer_instance

instance : Ignores (Hart.seen m o) (raiseIllegalInstruction : M W α) := by
  unfold raiseIllegalInstruction
  exact .get_bind (fun _ => rfl) fun _ => inferInstance

instance (e : Option SimulationTrap) : Ignores (Hart.seen m o) (raiseIfSome e : M W Unit) := by
  unfold raiseIfSome
  cases e <;> infer_instance

instance (pc : Word) : Ignores (Hart.seen m o) (setPc pc : M W Unit) :=
  .of_modify_comm fun _ => rfl

instance (prv : PrivilegeLevel) : Ignores (Hart.seen m o) (setPrv prv : M W Unit) :=
  .of_modify_comm fun _ => rfl

instance (n : ℤ) : Ignores (Hart.seen m o) (setLrScCounter n : M W Unit) :=
  .of_modify_comm fun _ => rfl

instance (f : World W → World W) : Ignores (Hart.seen m o) (onWorld f) :=
  .of_modify_comm fun _ => rfl

theorem memView_seen [Hides m] (h : Hart W) : (h.seen m o).memView = h.memView := by
  unfold Hart.memView
  simp only [Hart.seen, get_and_mask (show Mstatus.mprv.Fits by decide) (by decide),
    get_and_mask (show Mstatus.mpp.Fits by decide) (by decide),
    get_and_mask (show Mstatus.sum.Fits by decide) (by decide),
    get_and_mask (show Mstatus.mxr.Fits by decide) (by decide)]

instance [Hides m] (f : Access W α) : Ignores (Hart.seen m o) (access f) := by
  refine ⟨fun h h' (halike : h.seen m o = h'.seen m o) => ?_⟩
  have hview : h.memView = h'.memView := Alike.eq halike memView_seen
  have hworld : h.world = h'.world := Alike.eq (f := Hart.world) halike fun _ => rfl
  unfold access
  rw [hview, hworld]
  rcases f h'.memView h'.world with ⟨_ | a, w⟩
  · exact ⟨rfl, congrArg (Hart.setWorld · w) halike⟩
  · exact ⟨rfl, congrArg (Hart.setWorld · w) halike⟩

instance [Hides m] (env : Env W) : Ignores (Hart.seen m o) (releaseLrScReservation env) := by
  unfold releaseLrScReservation
  infer_instance

end Parts

/-! ### Integer instructions -/

section Integer

variable {m : Word} [Hides m] (env : Env W) (i : Instruction)

instance (r : RegIdx) : Ignores (Hart.seen m none) (reg r : M W Word) := by
  unfold reg
  exact .get_bind (fun _ => rfl) fun _ => inferInstance

instance (r : RegIdx) : Ignores (Hart.seen m none) (regShamt r : M W ℕ) := by
  unfold regShamt
  infer_instance

instance (r : RegIdx) (v : Word) : Ignores (Hart.seen m none) (setReg r v : M W Unit) :=
  .of_modify_comm fun _ => rfl

instance (x : IsaExt) : Ignores (Hart.seen m none) (requireIsa x : M W Unit) :=
  seen_illegalIf fun _ => rfl

instance (n : ℕ) (isLoad : Bool) (addr : Word) :
    Ignores (Hart.seen m none) (trapCheckAddrAlignment env n isLoad addr) := by
  unfold trapCheckAddrAlignment
  infer_instance

instance : Ignores (Hart.seen m none) (trapCheckPcAlignment env) := by
  unfold trapCheckPcAlignment
  exact .get_bind (fun _ => rfl) fun _ => inferInstance

instance (addr : Word) : Ignores (Hart.seen m none) (noCheck addr : M W Unit) := by
  unfold noCheck
  infer_instance

instance : Ignores (Hart.seen m none) (takeBranch env i) := by
  have : Ignores (Hart.seen m none) (modify fun h => { h with pc := h.lastPc + i.bImm } :
    M W Unit) := .of_modify_comm fun _ => rfl
  unfold takeBranch
  infer_instance

instance : Ignores (Hart.seen m none) (ebreak : M W Unit) := .of_modify_comm fun _ => rfl

instance (mode : PrivilegeLevel) :
    Ignores (Hart.seen m none) (unknownPrivilegeLevel mode : M W Unit) := by
  unfold unknownPrivilegeLevel
  infer_instance

instance : Ignores (Hart.seen m none) (ecallTrap : M W Unit) := by
  unfold ecallTrap
  exact .get_bind (fun _ => rfl) fun _ => inferInstance

instance : Ignores (Hart.seen m none) (ecall env) := by
  unfold ecall
  split
  · have (r : (RegIdx → Word) × Bool) : Ignores (Hart.seen m none) (modify fun h =>
      { h with regs := r.1, shallExit := h.shallExit || r.2 } : M W Unit) :=
      .of_modify_comm fun _ => rfl
    unfold syscall
    exact .get_bind (fun _ => rfl) fun _ => inferInstance
  · infer_instance

instance (f : Word → Word → Word) : Ignores (Hart.seen m none) (executeAmo env i f) := by
  have (regs : RegIdx → Word) : Ignores (Hart.seen m none) (modify fun h =>
    { h with regs := regs } : M W Unit) := .of_modify_comm fun _ => rfl
  have hamo : Ignores (Hart.seen m none) (do
      let h ← get
      let r ← access (env.executeAmo f i h.regs)
      modify fun h => { h with regs := r.1 }
      raiseIfSome r.2 : M W Unit) := .get_bind (fun _ => rfl) fun _ => inferInstance
  unfold executeAmo
  infer_instance

instance : Ignores (Hart.seen m none) (unknownOpcode : M W Unit) := by
  unfold unknownOpcode
  infer_instance

instance (op : Op) (x y : Word) : Ignores (Hart.seen m none) (niceCall env op x y) := by
  refine ⟨fun h h' (halike : h.seen m none = h'.seen m none) => ?_⟩
  have hworld : h.world = h'.world := Alike.eq (f := Hart.world) halike fun _ => rfl
  have hnice : niceUart h op = niceUart h' op :=
    Alike.eq (f := (niceUart · op)) halike fun _ => by cases op <;> rfl
  unfold niceCall
  rw [hworld, hnice]
  split
  · dsimp only
    split
    · refine ⟨rfl, ?_⟩
      have := congrArg (fun h => setNiceUart (h.setWorld
        (env.serial (Host.NiceUart.requestFor op x y) h'.world).2) ‹_› op) halike
      cases op <;> exact this
    · exact ⟨rfl, congrArg (Hart.setWorld · _) halike⟩
  · exact ⟨rfl, halike⟩

end Integer

/-! ### Floating-point instructions -/

section Float

variable {m : Word} {n : ℕ} (u : SoftFloat n)

instance (flags : Byte) : Ignores (Hart.seen m none) (setExceptionFlags flags : M W Unit) :=
  .of_modify_comm fun _ => rfl

instance : Ignores (Hart.seen m none) (fpSetDirty : M W Unit) := by
  unfold fpSetDirty
  infer_instance

instance : Ignores (Hart.seen m none) (fpUpdateExceptionFlags : M W Unit) := by
  have (flags : Byte) : Ignores (Hart.seen m none) (setCsrs fun c =>
      { c with fcsr := Fcsr.fflags.put (Fcsr.fflags.get c.fcsr ||| flags.setWidth 5) c.fcsr } :
      M W Unit) := seen_setCsrs fun _ => rfl
  unfold fpUpdateExceptionFlags
  exact .get_bind (fun _ => rfl) fun _ => inferInstance

instance : Ignores (Hart.seen m none) (fpFinishInstr : M W Unit) := by
  unfold fpFinishInstr
  infer_instance

instance (r : RegIdx) : Ignores (Hart.seen m none) (fpReg u r : M W (BitVec n)) := by
  unfold fpReg
  exact .get_bind (fun _ => rfl) fun _ => inferInstance

instance (r : RegIdx) (v : BitVec n) : Ignores (Hart.seen m none) (fpWrite u r v : M W Unit) :=
  .of_modify_comm fun _ => rfl

instance (f : BitVec 3 → α × Byte) : Ignores (Hart.seen m none) (softfloat f : M W α) := by
  unfold softfloat
  exact .get_bind (fun _ => rfl) fun _ => inferInstance

instance (a b : BitVec n) : Ignores (Hart.seen m none) (fpBefore u a b : M W Bool) := by
  unfold fpBefore
  infer_instance

instance : Ignores (Hart.seen m none) (fpSetupRm : M W Unit) := by
  have : Ignores (Hart.seen m none) (illegalIf fun h : Hart W => frmRmm ≤ roundingMode h) :=
    seen_illegalIf fun _ => rfl
  have : Ignores (Hart.seen m none) (modify fun h => { h with
    softfloatRoundingMode := roundingMode h } : M W Unit) := .of_modify_comm fun _ => rfl
  unfold fpSetupRm
  infer_instance

variable [Hides m]

instance : Ignores (Hart.seen m none) (fpPrepareInstr : M W Unit) := by
  have : Ignores (Hart.seen m none) (assert fun h : Hart W => h.softfloatExceptionFlags = 0) :=
    seen_assert fun _ => rfl
  have : Ignores (Hart.seen m none) (fpRequireNotOff : M W Unit) := by
    refine seen_illegalIf fun h => ?_
    simp only [Hart.seen, get_and_mask (show Mstatus.fs.Fits by decide) (by decide)]
  unfold fpPrepareInstr
  infer_instance

variable (x : IsaExt) (i : Instruction)

instance (f : BitVec 3 → BitVec n → BitVec n → BitVec n × Byte) :
    Ignores (Hart.seen m none) (fpBinary x u i f : M W Unit) := by
  unfold fpBinary
  infer_instance

instance : Ignores (Hart.seen m none) (fpSqrt x u i : M W Unit) := by
  unfold fpSqrt
  infer_instance

instance (f1 f3 : BitVec n → BitVec n) :
    Ignores (Hart.seen m none) (fpFused x u i f1 f3 : M W Unit) := by
  unfold fpFused
  infer_instance

instance (first : BitVec n → BitVec n → M W Bool) [∀ a b, Ignores (Hart.seen m none) (first a b)] :
    Ignores (Hart.seen m none) (fpSelect x u i first) := by
  unfold fpSelect
  infer_instance

instance (f : BitVec n → BitVec 3 → Bool → Word × Byte) :
    Ignores (Hart.seen m none) (fpToInt x u i f : M W Unit) := by
  unfold fpToInt
  infer_instance

instance (f : BitVec 3 → Word → BitVec n × Byte) :
    Ignores (Hart.seen m none) (fpOfInt x u i f : M W Unit) := by
  unfold fpOfInt
  infer_instance

instance {k : ℕ} (v : SoftFloat k) (f : BitVec 3 → BitVec k → BitVec n × Byte) :
    Ignores (Hart.seen m none) (fpConvert x u i v f : M W Unit) := by
  unfold fpConvert
  infer_instance

instance (f : BitVec n → BitVec n → BitVec n) :
    Ignores (Hart.seen m none) (fpSign x u i f : M W Unit) := by
  unfold fpSign
  infer_instance

instance (f : BitVec n → BitVec n → Bool × Byte) :
    Ignores (Hart.seen m none) (fpCompare x u i f : M W Unit) := by
  unfold fpCompare
  infer_instance

instance : Ignores (Hart.seen m none) (fpClass x u i : M W Unit) := by
  unfold fpClass
  infer_instance

instance (env : Env W) (op : Opcode) : Ignores (Hart.seen m none) (execFloat env i op) := by
  have (addr : Word) : Ignores (Hart.seen m none) (do
      let h ← get
      access (env.storeWord addr (env.fpRegU32 (h.fpRegs i.rs2))) : M W Unit) :=
    .get_bind (fun _ => rfl) fun _ => inferInstance
  have : Ignores (Hart.seen m none) (do
      let h ← get
      setReg i.rd (env.fpRegU32 (h.fpRegs i.rs1)) : M W Unit) :=
    .get_bind (fun _ => rfl) fun _ => inferInstance
  unfold execFloat
  split <;> first
    | infer_instance
    | unfold flw; infer_instance
    | unfold fsw; infer_instance
    | unfold fld; infer_instance
    | unfold fsd; infer_instance
    | unfold fmvWX; infer_instance
    | unfold fmvXW; infer_instance

end Float

/-! ### CSR accesses -/

/-- The addresses through which `mstatus` is accessed. -/
def NamesStatus (env : Env W) (addr : CsrAddr) : Prop :=
  csrName env addr = .mstatus ∨ csrName env addr = .sstatus ∨ csrName env addr = .ustatus

instance (env : Env W) (addr : CsrAddr) : Decidable (NamesStatus env addr) :=
  inferInstanceAs (Decidable (_ ∨ _))

/-- `default_read32` and `default_write32` access the register of the address, and `satp` has one. -/
structure MapsCsrs (env : Env W) : Prop where
  read : ∀ c x addr, ¬NamesStatus env addr →
    env.defaultRead32 { c with mstatus := x } addr = env.defaultRead32 c addr
  write : ∀ c x addr v, ¬NamesStatus env addr →
    env.defaultWrite32 { c with mstatus := x } addr v =
      { env.defaultWrite32 c addr v with mstatus := x }
  satp : ∀ addr, csrName env addr = .satp → env.isValidCsr32Addr addr = true

/-- The mask shows what the accesses to the address look at: `satp` is protected by `TVM`. -/
def ShowsAccess (env : Env W) (m : Word) (addr : CsrAddr) : Prop :=
  csrName env addr = .satp → ∀ x, Mstatus.tvm.isSet (x &&& m) = Mstatus.tvm.isSet x

section Csr

variable {m : Word} (env : Env W)

instance (addr : CsrAddr) (isWrite : Bool) :
    Ignores (Hart.seen m none) (isInvalidCsrAccess addr isWrite : M W Bool) := by
  have : Ignores (Hart.seen m none) (illegalIf fun h : Hart W =>
    isFcsr addr && !hasExt h.csrs.misa .f) := seen_illegalIf fun _ => rfl
  unfold isInvalidCsrAccess
  exact .seq this fun _ => .get_bind (fun _ => rfl) fun _ => inferInstance

instance (addr : CsrAddr) :
    Ignores (Hart.seen m none) (validateCsrCounterReadAccessRights addr : M W Unit) :=
  seen_illegalIf fun _ => rfl

theorem seen_readCsrs {f : Csrs → Word} (hf : ∀ c, f { c with mstatus := c.mstatus &&& m } = f c) :
    Ignores (Hart.seen m none) (readCsrs f : M W Word) := by
  unfold readCsrs
  exact .get_bind (fun h => congrArg pure (hf h.csrs)) fun _ => inferInstance

instance : Ignores (Hart.seen m none) (computeAndGetCurrentCycles : M W (BitVec 64)) := by
  have : Ignores (Hart.seen m none)
      (assert fun h : Hart W => h.cycleCounter.toNat % cycleTime = 0) := seen_assert fun _ => rfl
  unfold computeAndGetCurrentCycles
  exact .seq this fun _ => .get_bind (fun _ => rfl) fun _ => inferInstance

instance : Ignores (Hart.seen m none) (readTime env) := by
  have (time : BitVec 64) : Ignores (Hart.seen m none) (setCsrs fun c =>
      { c with time := time } : M W Unit) := seen_setCsrs fun _ => rfl
  unfold readTime
  exact .get_bind (fun _ => rfl) fun _ => inferInstance

instance (cycles : M W (BitVec 64)) [Ignores (Hart.seen m none) cycles] :
    Ignores (Hart.seen m none) (readCycle cycles) := by
  have (cycle : BitVec 64) : Ignores (Hart.seen m none) (setCsrs fun c =>
      { c with cycle := cycle } : M W Unit) := seen_setCsrs fun _ => rfl
  unfold readCycle
  infer_instance

variable {env}

theorem seen_readDefault (hmaps : MapsCsrs env) {addr : CsrAddr} (haddr : ¬NamesStatus env addr) :
    Ignores (Hart.seen m none) (readDefault env addr) := by
  have : Ignores (Hart.seen m none) (illegalIf fun _ : Hart W => !env.isValidCsr32Addr addr) :=
    seen_illegalIf fun _ => rfl
  unfold readDefault
  exact .seq this fun _ => .get_bind (fun h => congrArg pure (hmaps.read h.csrs _ addr haddr))
    fun _ => inferInstance

theorem seen_getCsrValue (hmaps : MapsCsrs env) {addr : CsrAddr} (haddr : ¬NamesStatus env addr)
    (hshows : ShowsAccess env m addr) (cycles : M W (BitVec 64))
    [Ignores (Hart.seen m none) cycles] :
    Ignores (Hart.seen m none) (getCsrValue env cycles addr) := by
  have hdefault := seen_readDefault (m := m) hmaps haddr
  unfold getCsrValue
  refine .seq inferInstance fun _ => ?_
  cases hname : csrName env addr
  case satp =>
    have : Ignores (Hart.seen m none) (illegalIf fun h : Hart W =>
      Mstatus.tvm.isSet h.csrs.mstatus) := seen_illegalIf fun h => hshows hname h.csrs.mstatus
    infer_instance
  case mstatus => exact absurd (.inl hname) haddr
  case sstatus => exact absurd (.inr (.inl hname)) haddr
  case ustatus => exact absurd (.inr (.inr hname)) haddr
  all_goals first
    | infer_instance
    | exact seen_readCsrs fun _ => rfl

theorem seen_setCsrValue (hmaps : MapsCsrs env) {addr : CsrAddr}
    (hshows : ShowsAccess env m addr) (v : Word) :
    Ignores (Hart.seen m none) (setCsrValue env addr v) := by
  have hwrite (haddr : ¬NamesStatus env addr) : Ignores (Hart.seen m none)
      (setCsrs fun c => env.defaultWrite32 c addr v : M W Unit) := by
    refine seen_setCsrs fun c => ?_
    have hsame := congrArg Csrs.mstatus (hmaps.write c c.mstatus addr v haddr)
    have hstatus : (env.defaultWrite32 c addr v).mstatus = c.mstatus := hsame
    rw [hmaps.write c _ addr v haddr, hstatus]
  unfold setCsrValue
  cases hname : csrName env addr
  case satp =>
    have : Ignores (Hart.seen m none) (illegalIf fun h : Hart W =>
      Mstatus.tvm.isSet h.csrs.mstatus) := seen_illegalIf fun h => hshows hname h.csrs.mstatus
    exact .seq this fun _ => seen_setCsrs fun _ => rfl
  case mstatus =>
    exact seen_status (f := (writeMasked · v env.masks.mstatus)) fun x => writeMasked_and_mask x v _
  case sstatus =>
    exact seen_status (f := (writeMasked · v env.masks.sstatus)) fun x => writeMasked_and_mask x v _
  case ustatus =>
    exact seen_status (f := (writeMasked · v env.masks.ustatus)) fun x => writeMasked_and_mask x v _
  all_goals first
    | infer_instance
    | exact seen_setCsrs fun _ => rfl
    | exact .seq (seen_illegalIf fun _ => rfl) fun _ => hwrite (by simp [NamesStatus, hname])

end Csr

/-! ### Traps and interrupts -/

section Handlers

variable {m : Word} {o : Option RegIdx}

instance (mode : PrivilegeLevel) :
    Ignores (Hart.seen m o) (unknownPrivilegeLevel mode : M W Unit) := by
  unfold unknownPrivilegeLevel
  infer_instance

theorem seen_prepareTrap (e : SimulationTrap) :
    Ignores (Hart.seen m o) (prepareTrap e : M W PrivilegeLevel) := by
  have hpc : Ignores (Hart.seen m o) (modify fun h => { h with pc := h.lastPc } : M W Unit) :=
    .of_modify_comm fun _ => rfl
  have hcast : Ignores (Hart.seen m o) (lexicalCast e.mtval : M W Word) := by
    unfold lexicalCast
    infer_instance
  have hrecord {f : Csrs → Csrs} {g : Word → Csrs → Csrs} (x : PrivilegeLevel)
      (hf : Ignores (Hart.seen m o) (setCsrs f : M W Unit))
      (hg : ∀ tval, Ignores (Hart.seen m o) (setCsrs (g tval) : M W Unit)) :
      Ignores (Hart.seen m o) (do
        setCsrs f
        let tval ← lexicalCast e.mtval
        setCsrs (g tval)
        return x : M W PrivilegeLevel) := inferInstance
  have hmachine : Ignores (Hart.seen m o) (do
      setCsrs fun c => { c with mcause := causeOf 0 e.reason c.mcause }
      let mtval ← lexicalCast e.mtval
      setCsrs fun c => { c with mtval := mtval }
      return machineMode : M W PrivilegeLevel) :=
    hrecord _ (seen_setCsrs fun _ => rfl) fun _ => seen_setCsrs fun _ => rfl
  have hsupervisor : Ignores (Hart.seen m o) (do
      setCsrs fun c => { c with scause := causeOf 0 e.reason c.scause }
      let stval ← lexicalCast e.mtval
      setCsrs fun c => { c with stval := stval }
      return supervisorMode : M W PrivilegeLevel) :=
    hrecord _ (seen_setCsrs fun _ => rfl) fun _ => seen_setCsrs fun _ => rfl
  have huser : Ignores (Hart.seen m o) (do
      setCsrs fun c => { c with ucause := causeOf 0 e.reason c.ucause }
      let utval ← lexicalCast e.mtval
      setCsrs fun c => { c with utval := utval }
      return userMode : M W PrivilegeLevel) :=
    hrecord _ (seen_setCsrs fun _ => rfl) fun _ => seen_setCsrs fun _ => rfl
  have hassert : Ignores (Hart.seen m o) (assert fun h : Hart W => h.prv = userMode &&
      (1 <<< e.reason.toNat) &&& h.csrs.medeleg != 0 &&
      (1 <<< e.reason.toNat) &&& h.csrs.sedeleg != 0) := seen_assert fun _ => rfl
  unfold prepareTrap
  refine .seq hpc fun _ => .get_bind (fun _ => rfl) fun h => ?_
  dsimp only
  infer_instance

theorem computePendingInterrupts_seen [Hides m] (h : Hart W) :
    computePendingInterrupts (h.seen m o) = computePendingInterrupts h := by
  unfold computePendingInterrupts
  simp only [Hart.seen, isSet_and_mask (show Mstatus.mie.lo < 32 by decide) (by decide),
    isSet_and_mask (show Mstatus.sie.lo < 32 by decide) (by decide),
    isSet_and_mask (show Mstatus.uie.lo < 32 by decide) (by decide)]

theorem seen_prepareInterrupt (x : PendingInterrupts) :
    Ignores (Hart.seen m o) (prepareInterrupt x : M W Unit) := by
  have hmcause (exc : ExceptionCode) : Ignores (Hart.seen m o)
      (setCsrs fun c => { c with mcause := causeOf 1 exc c.mcause } : M W Unit) :=
    seen_setCsrs fun _ => rfl
  have hscause (exc : ExceptionCode) : Ignores (Hart.seen m o)
      (setCsrs fun c => { c with scause := causeOf 1 exc c.scause } : M W Unit) :=
    seen_setCsrs fun _ => rfl
  have hucause (exc : ExceptionCode) : Ignores (Hart.seen m o)
      (setCsrs fun c => { c with ucause := causeOf 1 exc c.ucause } : M W Unit) :=
    seen_setCsrs fun _ => rfl
  unfold prepareInterrupt
  cases firstInterrupt x.pending <;> infer_instance

variable [Hides m]

instance (pp : PrivilegeLevel) : Ignores (Hart.seen m o) (enterMachineMode pp : M W Unit) := by
  have (pc : Word) : Ignores (Hart.seen m o) (setCsrs fun c => { c with mepc := pc } : M W Unit) :=
    seen_setCsrs fun _ => rfl
  unfold enterMachineMode
  refine .get_bind (fun h => ?_) fun _ => inferInstance
  simp only [Hart.seen, get_and_mask (show Mstatus.mie.Fits by decide) (by decide)]

instance (pp : PrivilegeLevel) : Ignores (Hart.seen m o) (enterSupervisorMode pp : M W Unit) := by
  have (pc : Word) : Ignores (Hart.seen m o) (setCsrs fun c => { c with sepc := pc } : M W Unit) :=
    seen_setCsrs fun _ => rfl
  unfold enterSupervisorMode
  refine .seq (seen_assert fun _ => rfl) fun _ => .get_bind (fun h => ?_) fun _ => inferInstance
  simp only [Hart.seen, get_and_mask (show Mstatus.sie.Fits by decide) (by decide)]

instance : Ignores (Hart.seen m o) (enterUserMode : M W Unit) := by
  have (pc : Word) : Ignores (Hart.seen m o) (setCsrs fun c => { c with uepc := pc } : M W Unit) :=
    seen_setCsrs fun _ => rfl
  unfold enterUserMode
  refine .seq (seen_assert fun _ => rfl) fun _ => .get_bind (fun h => ?_) fun _ => inferInstance
  simp only [Hart.seen, get_and_mask (show Mstatus.uie.Fits by decide) (by decide)]

variable (env : Env W)

theorem seen_switchToTrapHandler (mode : PrivilegeLevel) :
    Ignores (Hart.seen m o) (switchToTrapHandler env mode) := by
  unfold switchToTrapHandler
  exact .seq inferInstance fun _ => .get_bind (fun _ => rfl) fun _ => inferInstance

instance (e : Raise) : Ignores (Hart.seen m o) (catchTrap env e) := by
  have hprepare (e : SimulationTrap) := seen_prepareTrap (W := W) (m := m) (o := o) e
  have hswitch (mode : PrivilegeLevel) := seen_switchToTrapHandler (m := m) (o := o) env mode
  unfold catchTrap
  cases e <;> infer_instance

instance : Ignores (Hart.seen m o) (deliverInterrupt env) := by
  have hprepare (x : PendingInterrupts) := seen_prepareInterrupt (W := W) (m := m) (o := o) x
  have hswitch (mode : PrivilegeLevel) := seen_switchToTrapHandler (m := m) (o := o) env mode
  unfold deliverInterrupt
  refine .get_bind (fun h => by rw [computePendingInterrupts_seen]) fun h => ?_
  cases computePendingInterrupts h <;> infer_instance

/-! The returns. -/

instance (mode : PrivilegeLevel) :
    Ignores (Hart.seen m o) (returnFromTrapHandler mode : M W Unit) := by
  have hmpp : Ignores (Hart.seen m o) (returnToMpp : M W Unit) := by
    refine .get_bind (fun h => ?_) fun _ => inferInstance
    simp only [Hart.seen, get_and_mask (show Mstatus.mpp.Fits by decide) (by decide),
      get_and_mask (show Mstatus.mpie.Fits by decide) (by decide)]
    rfl
  have hspp : Ignores (Hart.seen m o) (returnToSpp : M W Unit) := by
    refine .get_bind (fun h => ?_) fun _ => inferInstance
    simp only [Hart.seen, get_and_mask (show Mstatus.spp.Fits by decide) (by decide),
      get_and_mask (show Mstatus.spie.Fits by decide) (by decide)]
    rfl
  have huser : Ignores (Hart.seen m o) (returnToUser : M W Unit) := by
    refine .get_bind (fun h => ?_) fun _ => inferInstance
    simp only [Hart.seen, get_and_mask (show Mstatus.upie.Fits by decide) (by decide)]
  unfold returnFromTrapHandler
  infer_instance

end Handlers

/-! ### Without `PIPELINE_TIMING` -/

section Plain

variable {m : Word} [Hides m] (env : Env W) (i : Instruction) {op : Opcode}

instance (f : Word → Word → Word) : Ignores (Hart.seen m none) (opPlain i f : M W Unit) := by
  unfold opPlain
  infer_instance

instance (check : Word → M W Unit) [∀ addr, Ignores (Hart.seen m none) (check addr)]
    (f : Word → Word → Access W Unit) : Ignores (Hart.seen m none) (storePlain i check f) := by
  unfold storePlain
  infer_instance

instance (check : Word → M W Unit) [∀ addr, Ignores (Hart.seen m none) (check addr)]
    (f : Word → Access W Word) : Ignores (Hart.seen m none) (loadPlain i check f) := by
  unfold loadPlain
  infer_instance

instance : Ignores (Hart.seen m none) (auipcPlain i : M W Unit) :=
  .get_bind (fun _ => rfl) fun _ => inferInstance

instance : Ignores (Hart.seen m none) (jalPlain env i) :=
  .get_bind (fun _ => rfl) fun _ => inferInstance

instance : Ignores (Hart.seen m none) (jalrPlain env i) :=
  .get_bind (fun _ => rfl) fun _ => inferInstance

instance : Ignores (Hart.seen m none) (lrWPlain env i) := by
  have : Ignores (Hart.seen m none) (do
      let h ← get
      if h.lrScCounter = 0 then setLrScCounter 17 else pure () : M W Unit) :=
    .get_bind (fun _ => rfl) fun _ => inferInstance
  unfold lrWPlain
  infer_instance

instance : Ignores (Hart.seen m none) (custom3Plain env i) := by
  unfold custom3Plain
  split <;> infer_instance

instance : Ignores (Hart.seen m none) (mret : M W Unit) := by
  unfold mret
  infer_instance

instance : Ignores (Hart.seen m none) (uret : M W Unit) := by
  have : Ignores (Hart.seen m none) (illegalIf fun h : Hart W => !hasExt h.csrs.misa .u) :=
    seen_illegalIf fun _ => rfl
  unfold uret
  infer_instance

/-- The three instructions that look at the hidden bits, though not in machine mode. -/
def ChecksControls (op : Opcode) : Prop := op = .wfi ∨ op = .sfenceVma ∨ op = .sret

instance (op : Opcode) : Decidable (ChecksControls op) := inferInstanceAs (Decidable (_ ∨ _))

theorem seen_execShared (hop : ¬ChecksControls op) :
    Ignores (Hart.seen m none) (execShared env i op) := by
  unfold execShared
  split <;> first
    | infer_instance
    | exact absurd (by simp [ChecksControls]) hop

theorem seen_execPlain (hop : ¬ChecksControls op) (hcsr : ¬IsCsr op) :
    Ignores (Hart.seen m none) (execPlain env i op) := by
  have hshared := seen_execShared (m := m) env i hop
  unfold execPlain
  split <;> first
    | infer_instance
    | unfold opImmPlain; infer_instance
    | unfold shiftPlain; infer_instance
    | unfold shiftImmPlain; infer_instance
    | unfold luiPlain; infer_instance
    | unfold branchPlain; infer_instance
    | unfold mulPlain; infer_instance
    | unfold scWPlain; infer_instance
    | (split <;> infer_instance)
    | exact absurd (by simp [IsCsr]) hcsr

end Plain

/-! ### With it -/

section Pipelined

variable {m : Word} {o : Option RegIdx}

/-- What runs in lockstep on the hart does so beside a pipeline that is the same. -/
theorem lockstep_lift_seen {o' : Option RegIdx} {n n' : M W α}
    (h : Lockstep (Alike (Hart.seen m o')) (Alike (Hart.seen m o)) n n' fun _ =>
      Alike (Hart.seen m o')) :
    Lockstep (Alike (TimedHart.seen m o')) (Alike (TimedHart.seen m o)) (lift n) (lift n') fun _ =>
      Alike (TimedHart.seen m o') := by
  intro t t' (halike : t.seen m o = t'.seen m o)
  have hhart : t.hart.seen m o = t'.hart.seen m o := congrArg TimedHart.hart halike
  have hpipeline : t.pipeline = t'.pipeline :=
    Alike.eq (f := TimedHart.pipeline) halike fun _ => rfl
  have hagree := h _ _ hhart
  have htimed {h h' : Hart W} (hh : Alike (Hart.seen m o') h h') :
      Alike (TimedHart.seen m o') { t with hart := h } { t' with hart := h' } := by
    show (⟨h.seen m o', t.pipeline⟩ : TimedHart W) = ⟨h'.seen m o', t'.pipeline⟩
    rw [show h.seen m o' = h'.seen m o' from hh, hpipeline]
  unfold lift
  cases h₁ : n t.hart <;> cases h₂ : n' t'.hart <;> rw [h₁, h₂] at hagree
  · exact ⟨hagree.1, htimed hagree.2⟩
  · exact hagree.elim
  · exact hagree.elim
  · exact ⟨hagree.1, htimed hagree.2⟩

instance (n : M W α) [h : Ignores (Hart.seen m o) n] : Ignores (TimedHart.seen m o) (lift n) :=
  ⟨lockstep_lift_seen h.agree⟩

instance (call : Pipeline → Option Pipeline) :
    Ignores (TimedHart.seen m o) (charge call : PM W Unit) := by
  refine ⟨fun t t' (halike : t.seen m o = t'.seen m o) => ?_⟩
  have hhart : t.hart.seen m o = t'.hart.seen m o := congrArg TimedHart.hart halike
  have hpipeline : t.pipeline = t'.pipeline :=
    Alike.eq (f := TimedHart.pipeline) halike fun _ => rfl
  unfold charge
  rw [hpipeline]
  cases call t'.pipeline with
  | none => exact ⟨rfl, halike⟩
  | some p => exact ⟨rfl, congrArg (TimedHart.mk · p) hhart⟩

instance (r : RegIdx) : Ignores (TimedHart.seen m o) (accessRegister r : PM W Unit) := by
  unfold accessRegister
  infer_instance

instance (r : RegIdx) : Ignores (TimedHart.seen m none) (read r : PM W Word) := by
  unfold read
  infer_instance

instance (r : RegIdx) : Ignores (TimedHart.seen m none) (uRead r : PM W Word) := by
  unfold uRead
  infer_instance

instance (r : RegIdx) : Ignores (TimedHart.seen m none) (shamt r : PM W ℕ) := by
  unfold shamt
  infer_instance

instance (r : RegIdx) (v : Word) : Ignores (TimedHart.seen m none) (write r v : PM W Unit) := by
  unfold write
  infer_instance

variable [Hides m] (env : Env W) (i : Instruction) {op : Opcode}

instance (f : Word → Word → Word) : Ignores (TimedHart.seen m none) (opPipeline i f : PM W Unit) := by
  unfold opPipeline
  infer_instance

instance : Ignores (TimedHart.seen m none) (auipcPipeline i : PM W Unit) :=
  .get_bind (fun _ => rfl) fun _ => inferInstance

instance : Ignores (TimedHart.seen m none) (jalPipeline env i) :=
  .get_bind (fun _ => rfl) fun _ => inferInstance

instance : Ignores (TimedHart.seen m none) (jalrPipeline env i) :=
  .get_bind (fun _ => rfl) fun _ => inferInstance

instance (size : ℕ) (check : Word → M W Unit) [∀ addr, Ignores (Hart.seen m none) (check addr)]
    (f : Word → Word → Access W Unit) :
    Ignores (TimedHart.seen m none) (storePipeline i size check f) := by
  unfold storePipeline
  infer_instance

instance (size : ℕ) (check : Word → M W Unit) [∀ addr, Ignores (Hart.seen m none) (check addr)]
    (f : Word → Access W Word) :
    Ignores (TimedHart.seen m none) (loadPipeline i size check f) := by
  unfold loadPipeline
  infer_instance

instance : Ignores (TimedHart.seen m none) (mulhsuPipeline i : PM W Unit) := by
  have (a b : Word) : Ignores (TimedHart.seen m none) (do
      let t ← get
      write i.rd (mulhsuResult (t.hart.regs i.rs1) (t.hart.regs i.rs2))
      charge fun p => p.doMult i.rd.toNat a b : PM W Unit) :=
    .get_bind (fun _ => rfl) fun _ => inferInstance
  unfold mulhsuPipeline
  infer_instance

instance (f : Word → Word → Word) :
    Ignores (TimedHart.seen m none) (executeAmoPipeline env i f) := by
  unfold executeAmoPipeline
  infer_instance

instance (op : Op) : Ignores (TimedHart.seen m none) (advanceNice op : PM W Unit) := by
  refine .get_bind (fun t => ?_) fun _ => inferInstance
  cases op <;> rfl

instance : Ignores (TimedHart.seen m none) (custom3Pipeline env i) := by
  unfold custom3Pipeline
  split <;> infer_instance

theorem seen_execPipeline (hop : ¬ChecksControls op) (hcsr : ¬IsCsr op) :
    Ignores (TimedHart.seen m none) (execPipeline env i op) := by
  have hshared := seen_execShared (m := m) env i hop
  unfold execPipeline
  split <;> first
    | infer_instance
    | unfold opImmPipeline; infer_instance
    | unfold uOpImmPipeline; infer_instance
    | unfold uOpPipeline; infer_instance
    | unfold shiftPipeline; infer_instance
    | unfold uShiftPipeline; infer_instance
    | unfold shiftImmPipeline; infer_instance
    | unfold uShiftImmPipeline; infer_instance
    | unfold luiPipeline; infer_instance
    | unfold branchPipeline; infer_instance
    | unfold uBranchPipeline; infer_instance
    | unfold mulPipeline; infer_instance
    | unfold divPipeline; infer_instance
    | unfold lrWPipeline; infer_instance
    | unfold scWPipeline; infer_instance
    | (split <;> infer_instance)
    | exact absurd (by simp [IsCsr]) hcsr

/-- In either build, an instruction other than those three and the CSR instructions. -/
theorem seen_exec (b : Build) (hop : ¬ChecksControls op) (hcsr : ¬IsCsr op) :
    Ignores (TimedHart.seen m none) (exec env b i op) := by
  cases b with
  | plain =>
    have := seen_execPlain (m := m) env i hop hcsr
    exact inferInstanceAs (Ignores _ (lift (execPlain env i op)))
  | pipeline => exact seen_execPipeline env i hop hcsr

/-! The CSR instructions. -/

instance (b : Build) (op : Opcode) :
    Ignores (TimedHart.seen m none) (csrSource b i op : PM W Word) := by
  unfold csrSource
  cases b <;> infer_instance

instance (b : Build) (v : Word) : Ignores (TimedHart.seen m none) (setRd b i v : PM W Unit) := by
  unfold setRd setRdPlain setRdPipeline
  cases b <;> infer_instance

variable {env} {i}

omit [Hides m] in
theorem seen_csrValue (b : Build) (hmaps : MapsCsrs env) (haddr : ¬NamesStatus env i.csr)
    (hshows : ShowsAccess env m i.csr) : Ignores (TimedHart.seen m none) (csrValue b env i) := by
  have hget (cycles : M W (BitVec 64)) [Ignores (Hart.seen m none) cycles] :=
    seen_getCsrValue hmaps haddr hshows cycles
  unfold csrValue csrValuePlain csrValuePipeline
  cases b with
  | plain => infer_instance
  | pipeline => exact .get_bind (fun _ => rfl) fun _ => inferInstance

omit [Hides m] in
/-- In either build, a CSR instruction on an address other than those of `mstatus`. -/
theorem seen_csrInstr (b : Build) (hmaps : MapsCsrs env) (haddr : ¬NamesStatus env i.csr)
    (hshows : ShowsAccess env m i.csr) (op : Opcode) :
    Ignores (TimedHart.seen m none) (csrInstr b env i op) := by
  have hvalue := seen_csrValue (m := m) b hmaps haddr hshows
  have hset (v : Word) := seen_setCsrValue (m := m) hmaps hshows v
  unfold csrInstr csrToRd
  infer_instance

end Pipelined

/-! ### The step -/

section Step

variable {m : Word} {o : Option RegIdx} (env : Env W)

theorem maskReg_update_zero (regs : RegIdx → Word) :
    maskReg m o (Function.update (maskReg m o regs) 0 0) =
      maskReg m o (Function.update regs 0 0) := by
  cases o with
  | none => rfl
  | some r =>
    funext q
    simp only [maskReg, Function.update_apply, if_true]
    split_ifs <;> first
      | rfl
      | exact and_mask_and_mask _

instance : Ignores (Hart.seen m o) (modify finishInstr : M W Unit) := by
  refine .of_modify fun h => ?_
  show ({ h with
    regs := maskReg m o (Function.update (maskReg m o h.regs) 0 0)
    csrs := { h.csrs with mstatus := h.csrs.mstatus &&& m &&& m }
    status := if h.shallExit then .terminated else h.status } : Hart W) = _
  rw [maskReg_update_zero, and_mask_and_mask]
  rfl

instance : Ignores (Hart.seen m o) (modify hitBreakpoint : M W Unit) :=
  .of_modify_comm fun _ => rfl

instance (time : ℕ) : Ignores (Hart.seen m o) (advanceQuantum env time) := by
  unfold advanceQuantum
  exact .seq inferInstance fun _ => .get_bind (fun _ => rfl) fun _ => inferInstance

variable [Hides m]

instance (executedOp : Opcode) : Ignores (Hart.seen m o) (countInstr env executedOp) := by
  have hadd : Ignores (Hart.seen m o) (modify addInstr : M W Unit) := .of_modify_comm fun _ => rfl
  have hcycles (n : ℕ) : Ignores (Hart.seen m o) (modify (addCycles n) : M W Unit) :=
    .of_modify_comm fun _ => rfl
  have hrelease : Ignores (Hart.seen m o) (do
      let h ← get
      if h.lrScCounter = 0 then releaseLrScReservation env else pure () : M W Unit) :=
    .get_bind (fun _ => rfl) fun _ => inferInstance
  have hassert : Ignores (Hart.seen m o) (assert fun h : Hart W => 0 ≤ h.lrScCounter) :=
    seen_assert fun _ => rfl
  have hcount : Ignores (Hart.seen m o) (countLrSc env) :=
    .get_bind (fun _ => rfl) fun _ => inferInstance
  unfold countInstr
  infer_instance

instance (b : Build) (executedOp : Opcode) :
    Ignores (TimedHart.seen m o) (performanceAndSyncUpdate env b executedOp) := by
  unfold performanceAndSyncUpdate
  cases b with
  | plain => infer_instance
  | pipeline =>
    have hcycles (n : BitVec 64) : Ignores (Hart.seen m o) (modify (setCycles n) : M W Unit) :=
      .of_modify_comm fun _ => rfl
    have hadvance (n : BitVec 64) : Ignores (Hart.seen m o) (advanceCycles env n) :=
      .get_bind (fun _ => rfl) fun _ => inferInstance
    have hrest : Ignores (TimedHart.seen m o) (do
        let t ← get
        lift (advanceCycles env t.pipeline.numTotalCycles) : PM W Unit) :=
      .get_bind (fun _ => rfl) fun _ => inferInstance
    infer_instance

instance (b : Build) : Ignores (TimedHart.seen m o) (afterInstr env b) := by
  unfold afterInstr
  exact .seq inferInstance fun _ => .get_bind (fun _ => rfl) fun _ => inferInstance

instance : Ignores (Hart.seen m none) (fetch env) := by
  have hassert : Ignores (Hart.seen m none) (assert fun h : Hart W =>
    h.pc &&& ~~~env.pcAlignmentMask h.csrs.misa = 0) := seen_assert fun _ => rfl
  have hnormal : Ignores (Hart.seen m none) (decodeNormal env) := .of_modify_comm fun _ => rfl
  have hexpand : Ignores (Hart.seen m none) (modify fun h : Hart W =>
      { h with
        op := (env.decodeAndExpandCompressed h.instr).1
        instr := (env.decodeAndExpandCompressed h.instr).2
        pc := h.pc + 2 } : M W Unit) := .of_modify_comm fun _ => rfl
  have hcheck : Ignores (Hart.seen m none) (illegalIf fun h : Hart W =>
    h.op ≠ .undef && !hasExt h.csrs.misa .c) := seen_illegalIf fun _ => rfl
  have hcompressed : Ignores (Hart.seen m none) (decodeCompressed env) := .seq hexpand fun _ => hcheck
  have hdecode : Ignores (Hart.seen m none) (decode env) :=
    .get_bind (fun _ => rfl) fun _ => inferInstance
  have hload : Ignores (Hart.seen m none) (loadInstr env) := by
    refine ⟨fun h h' (halike : h.seen m none = h'.seen m none) => ?_⟩
    have hpc : h.pc = h'.pc := Alike.eq (f := Hart.pc) halike fun _ => rfl
    have haccess := (inferInstance : Ignores (Hart.seen m none) (access (env.loadInstr h'.pc))).agree
      h h' halike
    have hset {a a' : Hart W} (x : Instruction) (op : Hart W → Opcode) (hop : op a = op a')
        (hsame : a.seen m none = a'.seen m none) :
        ({ a with op := op a, instr := x } : Hart W).seen m none =
          ({ a' with op := op a', instr := x } : Hart W).seen m none := by
      rw [hop]
      exact congrArg (fun h : Hart W => { h with op := op a', instr := x }) hsame
    unfold loadInstr
    rw [hpc]
    cases h₁ : access (env.loadInstr h'.pc) h <;> cases h₂ : access (env.loadInstr h'.pc) h' <;>
      rw [h₁, h₂] at haccess
    · obtain ⟨rfl, hok⟩ := haccess
      have hop := congrArg Hart.op (show Hart.seen m none _ = Hart.seen m none _ from hok)
      exact ⟨rfl, hset _ Hart.op hop hok⟩
    · exact haccess.elim
    · exact haccess.elim
    · obtain ⟨rfl, herror⟩ := haccess
      rename_i e _ _
      cases e with
      | trap e => exact ⟨rfl, hset _ (fun _ => .undef) rfl herror⟩
      | _ => exact ⟨rfl, herror⟩
  unfold fetch
  infer_instance

end Step

end Vcil.Iss
