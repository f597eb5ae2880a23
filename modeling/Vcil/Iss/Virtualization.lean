import Vcil.Iss.BareMetal
import Vcil.Iss.Views

/-!
# The virtualization controls

`TVM`, `TW` and `TSR` of `mstatus` make supervisor mode trap where machine mode wants to step in;
machine mode itself should not feel them.

* `SameButControls`: two states that differ in the three bits only;
* `ControlsIgnored`: a step from either passes control to the same handler, if to any, and leaves
  states that differ in these bits only, or in a register they were copied to;
* `AccessesSatp`: the instruction gets as far as an access to `satp`, which checks `TVM` in every mode;
* `controlsIgnored_iff`: the controls are ignored except by these accesses.
-/

namespace Vcil.Iss

open Fallible

variable {W α : Type}

/-! ### What machine mode should not feel -/

/-- Everything but the three bits. -/
def hideControls : Word := ~~~Mstatus.controls.mask

/-- Everything but `TW` and `TSR`. -/
def showTvm : Word := ~~~(⟨21, 2⟩ : BitField).mask

instance : Hides hideControls := ⟨by decide⟩

/-- The states are the same but for `TVM`, `TW` and `TSR`. -/
def SameButControls (t₁ t₂ : TimedHart W) : Prop := Alike (TimedHart.seen hideControls none) t₁ t₂

/-- … and but for copies of these bits in a register. -/
def SameButCopies (o : Option RegIdx) (t₁ t₂ : TimedHart W) : Prop :=
  Alike (TimedHart.seen hideControls o) t₁ t₂

section

variable (env : Env W) (b : Build)

/-- The register to which a CSR instruction copies `mstatus`. -/
def copyOf (i : Instruction) (op : Opcode) : Option RegIdx :=
  if IsCsr op ∧ NamesStatus env i.csr then some i.rd else none

/-- … by the instruction that the step executes. -/
def copied (t : TimedHart W) : Option RegIdx :=
  match fetch env (startInstr t.hart) with
  | .ok _ h => copyOf env h.instr h.op
  | .error _ _ => none

/-- The exception or the interrupt that ends the instruction, if any. -/
def cause : EStateM.Result Raise (TimedHart W) Unit → Option (Raise ⊕ PendingInterrupts)
  | .ok _ t => (computePendingInterrupts t.hart).map .inr
  | .error e _ => some (.inl e)

structure ControlsIgnored (t₁ t₂ : TimedHart W) : Prop where
  traps : Starts t₁ → cause (execStep env b { t₁ with hart := startInstr t₁.hart }) =
    cause (execStep env b { t₂ with hart := startInstr t₂.hart })
  states : Agree (SameButCopies (copied env t₁)) (fun _ => SameButCopies (copied env t₁))
    (runStep env b t₁) (runStep env b t₂)

/-- A CSR instruction that passes the checks before its access to `satp`. -/
structure PassesToSatp (i : Instruction) (op : Opcode) (t : TimedHart W) : Prop where
  isCsr : IsCsr op
  satp : csrName env i.csr = .satp
  supervisor : hasExt t.hart.csrs.misa .s = true
  operand : b = .pipeline → usesRs1 op = true →
    (t.pipeline.accessRegister i.rs1.toNat).isSome = true

/-- The step accesses `satp`. -/
def AccessesSatp (t : TimedHart W) : Prop :=
  Starts t ∧ ∃ h, fetch env (startInstr t.hart) = .ok () h ∧
    PassesToSatp env b h.instr h.op { t with hart := h }

/-- `TVM` is the same. -/
def SameTvm (t₁ t₂ : TimedHart W) : Prop :=
  Mstatus.tvm.isSet t₁.hart.csrs.mstatus = Mstatus.tvm.isSet t₂.hart.csrs.mstatus

end

/-! ### The CSRs of the table -/

section Table

variable {env : Env W} {addr : CsrAddr}

theorem mem_csrTable (env : Env W) (addr : CsrAddr) (hhpm : csrName env addr ≠ .hpmcounter)
    (hother : csrName env addr ≠ .other) :
    (addr, csrName env addr) ∈ csrTable := by
  unfold csrName at *
  cases hl : csrTable.lookup addr with
  | some name =>
    obtain ⟨l₁, l₂, hmem, -⟩ := List.lookup_eq_some_iff.1 hl
    show (addr, name) ∈ csrTable
    rw [hmem]
    simp
  | none =>
    rw [hl] at hhpm hother
    cases hcounter : env.isHpmcounter addr
    · rw [hcounter] at hother
      exact absurd rfl hother
    · rw [hcounter] at hhpm
      exact absurd rfl hhpm

theorem satp_access (hname : csrName env addr = .satp) :
    csrPrv addr = supervisorMode ∧ csrReadonly addr = false ∧ isFcsr addr = false := by
  have htable : ∀ p ∈ csrTable, p.2 = .satp →
      csrPrv p.1 = supervisorMode ∧ csrReadonly p.1 = false ∧ isFcsr p.1 = false := by decide
  have hmem := mem_csrTable env addr (by simp [hname]) (by simp [hname])
  rw [hname] at hmem
  exact htable (addr, .satp) hmem rfl

theorem status_access (hname : NamesStatus env addr) : isCounter addr = false := by
  have htable : ∀ p ∈ csrTable, p.2 = .mstatus ∨ p.2 = .sstatus ∨ p.2 = .ustatus →
      isCounter p.1 = false := by decide
  have hmem := mem_csrTable env addr (by rcases hname with h | h | h <;> simp [h])
    (by rcases hname with h | h | h <;> simp [h])
  exact htable (addr, csrName env addr) hmem hname

end Table

/-! ### Accesses to `mstatus` -/

section Status

variable {env : Env W} {b : Build} {i : Instruction} {m : Word} {o : Option RegIdx}

/-- The bits of `mstatus` that are accessed through the address. -/
def statusMask (env : Env W) (addr : CsrAddr) : Word :=
  match csrName env addr with
  | .sstatus => env.masks.sstatus
  | .ustatus => env.masks.ustatus
  | _ => env.masks.mstatus

theorem csrValue_status (hname : NamesStatus env i.csr) (t : TimedHart W) :
    csrValue b env i t = .ok (t.hart.csrs.mstatus &&& statusMask env i.csr) t := by
  have hget (cycles : M W (BitVec 64)) : getCsrValue env cycles i.csr t.hart =
      .ok (t.hart.csrs.mstatus &&& statusMask env i.csr) t.hart := by
    have hcounter : counterWithheld t.hart i.csr = false := by
      unfold counterWithheld
      rw [status_access hname, Bool.false_and]
    unfold getCsrValue validateCsrCounterReadAccessRights statusMask
    rw [illegalIf_bind, hcounter]
    rcases hname with hname | hname | hname <;> rw [hname] <;> rfl
  cases b with
  | plain => exact lift_of_ok (hget _)
  | pipeline => exact lift_of_ok (hget _)

theorem setCsrValue_status (hname : NamesStatus env i.csr) (v : Word) (t : TimedHart W) :
    lift (setCsrValue env i.csr v) t = .ok () { t with hart := { t.hart with csrs :=
      { t.hart.csrs with
        mstatus := writeMasked t.hart.csrs.mstatus v (statusMask env i.csr) } } } := by
  refine lift_of_ok (h := { t.hart with csrs := { t.hart.csrs with
    mstatus := writeMasked t.hart.csrs.mstatus v (statusMask env i.csr) } }) ?_
  unfold setCsrValue statusMask
  rcases hname with hname | hname | hname <;> rw [hname] <;> rfl

/-- Values that are the same through the mask are so after the write. -/
theorem writeMasked_alike {x x' v v' : Word} (mask : Word) (hx : x &&& m = x' &&& m)
    (hv : v &&& m = v' &&& m) : writeMasked x v mask &&& m = writeMasked x' v' mask &&& m := by
  refine BitVec.eq_of_getLsbD_eq fun k _ => ?_
  have hxk := congrArg (BitVec.getLsbD · k) hx
  have hvk := congrArg (BitVec.getLsbD · k) hv
  simp only [writeMasked, BitVec.getLsbD_and, BitVec.getLsbD_or] at hxk hvk ⊢
  revert hxk hvk
  cases m.getLsbD k <;> simp +contextual

theorem csrResult_alike {x x' : Word} (v : Word) (hx : x &&& m = x' &&& m) (op : Opcode) :
    csrResult x v op &&& m = csrResult x' v op &&& m := by
  have hor : (x ||| v) &&& m = (x' ||| v) &&& m := by
    refine BitVec.eq_of_getLsbD_eq fun k _ => ?_
    have hxk := congrArg (BitVec.getLsbD · k) hx
    simp only [BitVec.getLsbD_and, BitVec.getLsbD_or] at hxk ⊢
    revert hxk
    cases m.getLsbD k <;> simp +contextual
  have hswap (x : Word) : x &&& ~~~v &&& m = x &&& m &&& ~~~v := by
    rw [BitVec.and_assoc, BitVec.and_comm (~~~v), ← BitVec.and_assoc]
  have handNot : x &&& ~~~v &&& m = x' &&& ~~~v &&& m := by
    rw [hswap, hswap, hx]
  cases op <;> first
    | rfl
    | exact hor
    | exact handNot

/-- States that are alike are so where a register is masked in addition. -/
theorem alike_copies {t t' : TimedHart W} (h : Alike (TimedHart.seen m none) t t') :
    Alike (TimedHart.seen m o) t t' := by
  have hseen (t : TimedHart W) : t.seen m o =
      { t with hart := { (t.seen m none).hart with regs := maskReg m o (t.seen m none).hart.regs } } :=
    rfl
  have halike : t.seen m none = t'.seen m none := h
  show t.seen m o = t'.seen m o
  have hpipeline : t.pipeline = t'.pipeline :=
    Alike.eq (f := TimedHart.pipeline) h fun _ => rfl
  rw [hseen t, hseen t', halike]
  exact congrArg (TimedHart.mk _) hpipeline

/-- After a write of values that are alike, so are the harts. -/
theorem lockstep_setReg {v v' : Word} (hv : v &&& m = v' &&& m) (r : RegIdx) :
    Lockstep (Alike (Hart.seen m (some r))) (Alike (Hart.seen m none)) (setReg r v : M W Unit)
      (setReg r v') fun _ => Alike (Hart.seen m (some r)) := by
  intro h h' (halike : h.seen m none = h'.seen m none)
  have hregs : maskReg m (some r) (Function.update h.regs r v) =
      maskReg m (some r) (Function.update h'.regs r v') := by
    have hsame : h.regs = h'.regs := Alike.eq (f := Hart.regs) halike fun _ => rfl
    simp only [maskReg, Function.update_self, Function.update_idem, hsame, hv]
  refine ⟨rfl, ?_⟩
  show ({ h.seen m none with regs := maskReg m (some r) (Function.update h.regs r v) } : Hart W) =
    { h'.seen m none with regs := maskReg m (some r) (Function.update h'.regs r v') }
  rw [halike, hregs]

/-- … as in `rd` of a CSR instruction. -/
theorem lockstep_setRd {v v' : Word} (hv : v &&& m = v' &&& m) :
    Lockstep (Alike (TimedHart.seen m (some i.rd))) (Alike (TimedHart.seen m none))
      (setRd b i v : PM W Unit) (setRd b i v') fun _ => Alike (TimedHart.seen m (some i.rd)) := by
  have hcopies (t t' : TimedHart W) (h : Alike (TimedHart.seen m none) t t') :
      Alike (TimedHart.seen m (some i.rd)) t t' := alike_copies h
  have hwrite := lockstep_lift_seen (lockstep_setReg (W := W) hv i.rd)
  by_cases hrd : i.rd ≠ 0
  · cases b with
    | plain =>
      simp only [setRd, setRdPlain, if_pos hrd]
      exact hwrite
    | pipeline =>
      simp only [setRd, setRdPipeline, if_pos hrd, write]
      refine .bind (.bind (Ignores.lockstep hcopies (accessRegister i.rd)) fun _ => hwrite) fun _ => ?_
      exact Ignores.agree
  · have hnone : Lockstep (Alike (TimedHart.seen m (some i.rd))) (Alike (TimedHart.seen m none))
        (pure () : PM W Unit) (pure ()) fun _ => Alike (TimedHart.seen m (some i.rd)) :=
      .pure hcopies
    cases b with
    | plain =>
      simp only [setRd, setRdPlain, if_neg hrd]
      exact hnone
    | pipeline =>
      simp only [setRd, setRdPipeline, if_neg hrd]
      exact hnone

theorem lockstep_setStatus (hname : NamesStatus env i.csr) {v v' : Word}
    (hv : v &&& m = v' &&& m) :
    Lockstep (Alike (TimedHart.seen m o)) (Alike (TimedHart.seen m o))
      (lift (setCsrValue env i.csr v)) (lift (setCsrValue env i.csr v')) fun _ =>
      Alike (TimedHart.seen m o) := by
  intro t t' (halike : t.seen m o = t'.seen m o)
  have hstatus : t.hart.csrs.mstatus &&& m = t'.hart.csrs.mstatus &&& m :=
    congrArg (fun t => t.hart.csrs.mstatus) halike
  have hwritten := writeMasked_alike (statusMask env i.csr) hstatus hv
  rw [setCsrValue_status hname, setCsrValue_status hname]
  refine ⟨rfl, ?_⟩
  have hset (w w' : Word) (hw : w = w') := congrArg₂ (fun (t : TimedHart W) (w : Word) =>
    { t with hart := { t.hart with csrs := { t.hart.csrs with mstatus := w } } }) halike hw
  exact hset _ _ hwritten

/-- In either build, a CSR instruction on an address of `mstatus`. -/
theorem lockstep_status (hname : NamesStatus env i.csr) (op : Opcode) :
    Lockstep (Alike (TimedHart.seen m (some i.rd))) (Alike (TimedHart.seen m none))
      (csrInstr b env i op) (csrInstr b env i op) fun _ =>
      Alike (TimedHart.seen m (some i.rd)) := by
  have hcopies (t t' : TimedHart W) (h : Alike (TimedHart.seen m none) t t') :
      Alike (TimedHart.seen m (some i.rd)) t t' := alike_copies h
  have hillegal := Ignores.lockstep (v := TimedHart.seen m none) hcopies
    (lift raiseIllegalInstruction : PM W Unit)
  have hread {k : Word → PM W Unit}
      (hk : ∀ v v', v &&& m = v' &&& m → Lockstep (Alike (TimedHart.seen m (some i.rd)))
        (Alike (TimedHart.seen m none)) (k v) (k v') fun _ =>
        Alike (TimedHart.seen m (some i.rd))) :
      Lockstep (Alike (TimedHart.seen m (some i.rd))) (Alike (TimedHart.seen m none))
        (csrValue b env i >>= k) (csrValue b env i >>= k) fun _ =>
        Alike (TimedHart.seen m (some i.rd)) := by
    intro t t' (halike : t.seen m none = t'.seen m none)
    have hstatus : t.hart.csrs.mstatus &&& m = t'.hart.csrs.mstatus &&& m :=
      congrArg (fun t => t.hart.csrs.mstatus) halike
    rw [bind_of_ok (csrValue_status hname t), bind_of_ok (csrValue_status hname t')]
    refine hk _ _ ?_ t t' halike
    rw [BitVec.and_assoc, BitVec.and_comm (statusMask env i.csr), ← BitVec.and_assoc, hstatus,
      BitVec.and_assoc, BitVec.and_comm m, ← BitVec.and_assoc]
  unfold csrInstr
  refine .bind (Ignores.lockstep hcopies _) fun invalid => .ite (fun _ => ?_) fun _ => ?_
  · exact hillegal.weaken (fun _ _ h => h) fun _ => hcopies
  refine .bind (Ignores.lockstep hcopies _) fun v => .ite (fun _ => ?_) fun _ => ?_
  · refine .bind (Q := fun _ => Alike (TimedHart.seen m (some i.rd))) ?_ fun _ =>
      lockstep_setStatus hname rfl
    unfold csrToRd
    refine .ite (fun _ => hread fun _ _ hv => lockstep_setRd hv) fun _ => .pure hcopies
  · refine hread fun old old' hold => .bind (lockstep_setRd hold) fun _ => .ite (fun _ => ?_) fun _ => ?_
    · exact lockstep_setStatus hname (csrResult_alike v hold op)
    · exact .pure fun _ _ h => h

end Status

/-! ### Machine mode -/

section Machine

variable (env : Env W) {b : Build} {i : Instruction} {op : Opcode} {m : Word}

/-! What the three instructions that look at the bits do in machine mode. -/

def wfiMachine : M W Unit := do
  releaseLrScReservation env
  let h ← get
  if !h.ignoreWfi && !env.hasLocalPendingEnabledInterrupts h.csrs.mie h.csrs.mip then
    onWorld env.waitWfiEvent
  else pure ()

def sretMachine : M W Unit := do
  illegalIf fun h => !hasExt h.csrs.misa .s
  returnFromTrapHandler supervisorMode

def machineCase : Opcode → M W Unit
  | .wfi => wfiMachine env
  | .sfenceVma => onWorld env.flushTlb
  | _ => sretMachine

instance [Hides m] (op : Opcode) : Ignores (Hart.seen m none) (machineCase env op) := by
  have hsret : Ignores (Hart.seen m none) (sretMachine : M W Unit) := by
    have : Ignores (Hart.seen m none) (illegalIf fun h : Hart W => !hasExt h.csrs.misa .s) :=
      seen_illegalIf fun _ => rfl
    unfold sretMachine
    infer_instance
  have hwfi : Ignores (Hart.seen m none) (wfiMachine env) :=
    .seq inferInstance fun _ => .get_bind (fun _ => rfl) fun _ => inferInstance
  unfold machineCase
  split <;> infer_instance

variable {env}

theorem execShared_machine {h : Hart W} (hprv : h.prv = machineMode) (hop : ChecksControls op) :
    execShared env i op h = machineCase env op h := by
  have hs {h : Hart W} (hprv : h.prv = machineMode) : sMode h = false := by
    unfold sMode
    rw [hprv]
    rfl
  have hu {h : Hart W} (hprv : h.prv = machineMode) : uMode h = false := by
    unfold uMode
    rw [hprv]
    rfl
  rcases hop with rfl | rfl | rfl
  · show wfi env h = wfiMachine env h
    unfold wfi wfiMachine
    cases hrelease : releaseLrScReservation env h with
    | error e h' => rw [bind_of_error hrelease, bind_of_error hrelease]
    | ok _ h' =>
      have hprv' : h'.prv = machineMode := by
        rw [releaseLrScReservation_ok hrelease]
        exact hprv
      rw [bind_of_ok hrelease, bind_of_ok hrelease, illegalIf_bind, hs hprv', Bool.false_and,
        if_neg Bool.false_ne_true, illegalIf_bind, hu hprv', Bool.false_and,
        if_neg Bool.false_ne_true]
  · show sfenceVma env h = onWorld env.flushTlb h
    unfold sfenceVma
    rw [illegalIf_bind, hs hprv, Bool.false_and, if_neg Bool.false_ne_true]
  · show sret h = sretMachine h
    unfold sret sretMachine
    rw [illegalIf_bind, illegalIf_bind, hs hprv, Bool.false_and, Bool.or_false]

theorem exec_machine {t : TimedHart W} (hprv : t.hart.prv = machineMode) (hop : ChecksControls op) :
    exec env b i op t = lift (machineCase env op) t := by
  have hexec : exec env b i op t = lift (execShared env i op) t := by
    rcases hop with rfl | rfl | rfl <;> cases b <;> rfl
  rw [hexec]
  unfold lift
  rw [execShared_machine hprv hop]

end Machine

/-! ### Accesses to `satp` -/

section Satp

variable {env : Env W} {b : Build} {i : Instruction} {op : Opcode} {t t' : TimedHart W}

/-- The trap of an illegal instruction. -/
def illegalTrap (h : Hart W) : Raise := .trap ⟨excIllegalInstr, h.instr.data.setWidth 64⟩

theorem isInvalidCsrAccess_satp (hname : csrName env i.csr = .satp) {h : Hart W}
    (hprv : h.prv = machineMode) (w : Bool) :
    isInvalidCsrAccess i.csr w h = .ok (!hasExt h.csrs.misa .s) h := by
  obtain ⟨hlevel, hwrite, hfcsr⟩ := satp_access hname
  have hinvalid : invalidCsrAccess h i.csr w = !hasExt h.csrs.misa .s := by
    unfold invalidCsrAccess
    rw [hlevel, hwrite, hprv]
    cases hasExt h.csrs.misa .s <;> cases hasExt h.csrs.misa .u <;> cases w <;> rfl
  unfold isInvalidCsrAccess
  rw [illegalIf_bind, hfcsr, Bool.false_and, if_neg Bool.false_ne_true]
  exact congrArg (EStateM.Result.ok · h) hinvalid

/-- Without supervisor mode the instruction is illegal. -/
theorem exec_unsupervised (hop : IsCsr op) (hname : csrName env i.csr = .satp)
    (hprv : t.hart.prv = machineMode) (hext : hasExt t.hart.csrs.misa .s = false) :
    exec env b i op t = .error (illegalTrap t.hart) t := by
  have hinvalid := isInvalidCsrAccess_satp hname hprv (csrChecked b i op)
  rw [hext] at hinvalid
  rw [exec_csr b env i hop]
  unfold csrInstr
  rw [bind_of_ok (lift_of_ok hinvalid)]
  rfl

/-- The operand of a register that the pipeline does not find. -/
theorem exec_unready (hop : IsCsr op) (hname : csrName env i.csr = .satp)
    (hprv : t.hart.prv = machineMode) (hext : hasExt t.hart.csrs.misa .s = true)
    (hb : b = .pipeline) (hrs1 : usesRs1 op = true)
    (hnone : t.pipeline.accessRegister i.rs1.toNat = none) :
    exec env b i op t = .error .assertion t := by
  have hinvalid := isInvalidCsrAccess_satp hname hprv (csrChecked b i op)
  rw [hext] at hinvalid
  have hsource : csrSource b i op t = .error .assertion t := by
    unfold csrSource
    rw [if_pos hrs1, hb]
    exact bind_of_error (charge_of_none hnone)
  rw [exec_csr b env i hop]
  unfold csrInstr
  rw [bind_of_ok (lift_of_ok hinvalid)]
  exact bind_of_error hsource

theorem PassesToSatp.source (h : PassesToSatp env b i op t) :
    ∃ v p, csrSource b i op t = .ok v { t with pipeline := p } := by
  unfold csrSource
  by_cases hrs1 : usesRs1 op = true
  · rw [if_pos hrs1]
    cases hb : b with
    | plain => exact ⟨_, t.pipeline, rfl⟩
    | pipeline =>
      obtain ⟨p, hp⟩ := Option.isSome_iff_exists.1 (h.operand hb hrs1)
      exact ⟨_, p, (bind_of_ok (charge_of_some hp)).trans (lift_of_ok rfl)⟩
  · rw [if_neg hrs1]
    exact ⟨_, t.pipeline, rfl⟩

theorem getCsrValue_satp (hname : csrName env i.csr = .satp) {h : Hart W}
    (hprv : h.prv = machineMode) (cycles : M W (BitVec 64)) :
    getCsrValue env cycles i.csr h =
      if Mstatus.tvm.isSet h.csrs.mstatus then .error (illegalTrap h) h
      else readDefault env i.csr h := by
  have hwithheld : counterWithheld h i.csr = false := by
    unfold counterWithheld sMode uMode
    rw [hprv]
    exact Bool.and_false _
  unfold getCsrValue validateCsrCounterReadAccessRights
  rw [illegalIf_bind, hwithheld, if_neg Bool.false_ne_true, hname]
  exact illegalIf_bind _ _ h

theorem csrValue_satp (hname : csrName env i.csr = .satp) (hprv : t.hart.prv = machineMode) :
    csrValue b env i t =
      if Mstatus.tvm.isSet t.hart.csrs.mstatus then .error (illegalTrap t.hart) t
      else lift (readDefault env i.csr) t := by
  have hget (cycles : M W (BitVec 64)) : lift (getCsrValue env cycles i.csr) t =
      if Mstatus.tvm.isSet t.hart.csrs.mstatus then .error (illegalTrap t.hart) t
      else lift (readDefault env i.csr) t := by
    have hvalue := getCsrValue_satp hname hprv cycles
    unfold lift
    split_ifs at hvalue ⊢ with htvm
    · rw [hvalue]
    · rw [hvalue]
  cases b with
  | plain => exact hget _
  | pipeline => exact hget _

theorem setCsrValue_satp (hname : csrName env i.csr = .satp) (v : Word) (h : Hart W) :
    setCsrValue env i.csr v h =
      if Mstatus.tvm.isSet h.csrs.mstatus then .error (illegalTrap h) h
      else .ok () { h with csrs :=
        { h.csrs with satp := writeMasked h.csrs.satp v env.masks.satp } } := by
  unfold setCsrValue
  rw [hname]
  exact illegalIf_bind _ _ h

/-- With `TVM` set the access traps, be it a read or a write. -/
theorem PassesToSatp.traps (h : PassesToSatp env b i op t) (hprv : t.hart.prv = machineMode)
    (htvm : Mstatus.tvm.isSet t.hart.csrs.mstatus = true) :
    ∃ t', exec env b i op t = .error (illegalTrap t.hart) t' := by
  obtain ⟨v, p, hsource⟩ := h.source
  have hvalid := isInvalidCsrAccess_satp h.satp hprv (csrChecked b i op)
  rw [h.supervisor] at hvalid
  have hread : csrValue b env i ⟨t.hart, p⟩ = .error (illegalTrap t.hart) ⟨t.hart, p⟩ := by
    rw [csrValue_satp (t := ⟨t.hart, p⟩) h.satp hprv, if_pos htvm]
  have hwrite : lift (setCsrValue env i.csr v) ⟨t.hart, p⟩ =
      .error (illegalTrap t.hart) ⟨t.hart, p⟩ :=
    lift_of_error (by rw [setCsrValue_satp h.satp, if_pos htvm])
  rw [exec_csr b env i h.isCsr]
  unfold csrInstr csrToRd
  rw [bind_of_ok (lift_of_ok hvalid)]
  simp only [Bool.not_true, if_neg Bool.false_ne_true]
  rw [bind_of_ok hsource]
  by_cases hop : op = .csrrw ∨ op = .csrrwi
  · rw [if_pos hop]
    by_cases hrd : i.rd ≠ 0
    · rw [if_pos hrd, bind_of_error (bind_of_error hread)]
      exact ⟨_, rfl⟩
    · rw [if_neg hrd]
      exact ⟨_, hwrite⟩
  · rw [if_neg hop, bind_of_error hread]
    exact ⟨_, rfl⟩

/-- Writing `rd` leaves the CSRs alone, and can only fail an assertion. -/
theorem setRd_ends (v : Word) :
    Ends (OnHart (Unchanged Hart.csrs)) (fun e _ _ => ¬IsTrap e) (setRd b i v : PM W Unit) := by
  have hcharge (call : Timing.Pipeline → Option Timing.Pipeline) :
      Ends (OnHart (Unchanged Hart.csrs)) (fun e _ _ => ¬IsTrap e) (charge call : PM W Unit) := by
    refine ⟨fun hr => congrArg Hart.csrs (charge_hart hr), fun hr => ?_⟩
    rw [(charge_error hr).1]
    exact not_isTrap_assertion
  have hreg : Ends (OnHart (Unchanged Hart.csrs)) (fun e _ _ => ¬IsTrap e)
      (lift (setReg i.rd v) : PM W Unit) := by
    refine ⟨fun hr => ?_, fun hr => ?_⟩
    · cases hr
      rfl
    · cases hr
  by_cases hrd : i.rd ≠ 0
  · cases b with
    | plain =>
      simp only [setRd, setRdPlain, if_pos hrd]
      exact hreg
    | pipeline =>
      simp only [setRd, setRdPipeline, if_pos hrd]
      exact .bind (fun _ _ _ _ _ h => h)
        (.bind (fun _ _ _ _ _ h => h) (hcharge _) fun _ => hreg) fun _ => hcharge _
  · cases b with
    | plain =>
      simp only [setRd, setRdPlain, if_neg hrd]
      exact .pure ()
    | pipeline =>
      simp only [setRd, setRdPipeline, if_neg hrd]
      exact .pure ()

/-- With `TVM` clear the instruction does not trap. -/
theorem not_trap_of_clear (hmaps : MapsCsrs env) (h : PassesToSatp env b i op t)
    (hprv : t.hart.prv = machineMode) (htvm : Mstatus.tvm.isSet t.hart.csrs.mstatus = false)
    {e : Raise} (hr : exec env b i op t = .error e t') : ¬IsTrap e := by
  obtain ⟨v, p, hsource⟩ := h.source
  have hvalid := isInvalidCsrAccess_satp h.satp hprv (csrChecked b i op)
  rw [h.supervisor] at hvalid
  have hread : ∃ old, csrValue b env i ⟨t.hart, p⟩ = .ok old ⟨t.hart, p⟩ := by
    refine ⟨env.defaultRead32 t.hart.csrs i.csr, ?_⟩
    rw [csrValue_satp (t := ⟨t.hart, p⟩) h.satp hprv]
    simp only [htvm, if_neg Bool.false_ne_true]
    refine lift_of_ok (t := ⟨t.hart, p⟩) ?_
    unfold readDefault
    rw [illegalIf_bind, hmaps.satp i.csr h.satp]
    rfl
  have hset {v : Word} (t₁ : TimedHart W) (hcsrs : t₁.hart.csrs = t.hart.csrs)
      (hr : lift (setCsrValue env i.csr v) t₁ = .error e t') : False := by
    obtain ⟨h', hset, -⟩ := lift_error hr
    rw [setCsrValue_satp h.satp, hcsrs, htvm, if_neg Bool.false_ne_true] at hset
    cases hset
  obtain ⟨old, hread⟩ := hread
  rw [exec_csr b env i h.isCsr] at hr
  unfold csrInstr csrToRd at hr
  rw [bind_of_ok (lift_of_ok hvalid)] at hr
  simp only [Bool.not_true, if_neg Bool.false_ne_true] at hr
  rw [bind_of_ok hsource] at hr
  have hrest {k : Unit → PM W Unit} {v : Word} (hk : ∀ t₁ : TimedHart W,
      t₁.hart.csrs = t.hart.csrs → k () t₁ = .error e t' → ¬IsTrap e)
      (hr : (setRd b i v >>= k) ⟨t.hart, p⟩ = .error e t') : ¬IsTrap e := by
    rcases bind_eq_error.1 hr with hset | ⟨_, t₁, hset, hr⟩
    · exact (setRd_ends v).error hset
    · have hcsrs := (setRd_ends v).ok hset
      exact hk t₁ hcsrs hr
  by_cases hop : op = .csrrw ∨ op = .csrrwi
  · rw [if_pos hop] at hr
    by_cases hrd : i.rd ≠ 0
    · rw [if_pos hrd, bind_assoc, bind_of_ok hread] at hr
      exact hrest (fun t₁ hcsrs hr => (hset t₁ hcsrs hr).elim) hr
    · rw [if_neg hrd, pure_bind] at hr
      exact (hset ⟨t.hart, p⟩ rfl hr).elim
  · rw [if_neg hop, bind_of_ok hread] at hr
    refine hrest (fun t₁ hcsrs hr => ?_) hr
    split_ifs at hr
    · exact (hset t₁ hcsrs hr).elim
    · cases hr

end Satp

/-! ### One instruction -/

section Instr

variable {env : Env W} {b : Build} {i : Instruction} {op : Opcode} {t₁ t₂ : TimedHart W}

/-- What is masked further stays alike. -/
theorem alike_mask {m m' : Word} (hmask : m &&& m' = m')
    (h : Alike (TimedHart.seen m none) t₁ t₂) : Alike (TimedHart.seen m' none) t₁ t₂ := by
  have hseen (t : TimedHart W) : t.seen m' none = (t.seen m none).seen m' none := by
    have hand : t.hart.csrs.mstatus &&& m &&& m' = t.hart.csrs.mstatus &&& m' := by
      rw [BitVec.and_assoc, hmask]
    show _ = ({ t with hart := { t.hart with csrs := { t.hart.csrs with
      mstatus := t.hart.csrs.mstatus &&& m &&& m' } } } : TimedHart W)
    rw [hand]
    rfl
  show t₁.seen m' none = t₂.seen m' none
  rw [hseen t₁, hseen t₂, show t₁.seen m none = t₂.seen m none from h]

/-- With the same `TVM`, the states differ in `TW` and `TSR` only. -/
theorem alike_showTvm (h : SameButControls t₁ t₂) (htvm : SameTvm t₁ t₂) :
    Alike (TimedHart.seen showTvm none) t₁ t₂ := by
  have halike : t₁.seen hideControls none = t₂.seen hideControls none := h
  have hstatus : t₁.hart.csrs.mstatus &&& hideControls = t₂.hart.csrs.mstatus &&& hideControls :=
    congrArg (fun t => t.hart.csrs.mstatus) halike
  have hshown : t₁.hart.csrs.mstatus &&& showTvm = t₂.hart.csrs.mstatus &&& showTvm := by
    refine BitVec.eq_of_getLsbD_eq fun k hk => ?_
    have hbit := congrArg (BitVec.getLsbD · k) hstatus
    simp only [BitVec.getLsbD_and] at hbit ⊢
    by_cases htvmBit : k = 20
    · subst htvmBit
      have hsame : t₁.hart.csrs.mstatus.getLsbD 20 = t₂.hart.csrs.mstatus.getLsbD 20 := htvm
      rw [hsame]
    · have hmasks : ∀ k < 32, k ≠ 20 → showTvm.getLsbD k = hideControls.getLsbD k := by decide
      rw [hmasks k hk htvmBit]
      exact hbit
  have hset := congrArg₂ (fun (t : TimedHart W) (w : Word) =>
    { t with hart := { t.hart with csrs := { t.hart.csrs with mstatus := w } } }) halike hshown
  exact hset

theorem SameButControls.prv (h : SameButControls t₁ t₂) : t₁.hart.prv = t₂.hart.prv :=
  Alike.eq (f := fun t => t.hart.prv) h fun _ => rfl

/-- The access checks of both states are the same. -/
theorem agree_blocked (hop : IsCsr op) (hname : csrName env i.csr = .satp)
    (h : SameButControls t₁ t₂) (hprv : t₁.hart.prv = machineMode)
    (hblocked : ¬PassesToSatp env b i op t₁) :
    Agree SameButControls (fun _ => SameButControls) (exec env b i op t₁) (exec env b i op t₂) := by
  have hmisa : t₁.hart.csrs.misa = t₂.hart.csrs.misa :=
    Alike.eq (f := fun t => t.hart.csrs.misa) h fun _ => rfl
  have hpipeline : t₁.pipeline = t₂.pipeline :=
    Alike.eq (f := TimedHart.pipeline) h fun _ => rfl
  have hprv₂ : t₂.hart.prv = machineMode := h.prv ▸ hprv
  cases hext : hasExt t₁.hart.csrs.misa .s with
  | false =>
    have htrap : illegalTrap t₁.hart = illegalTrap t₂.hart :=
      Alike.eq (f := fun t => illegalTrap t.hart) h fun _ => rfl
    rw [exec_unsupervised hop hname hprv hext, exec_unsupervised hop hname hprv₂ (hmisa ▸ hext)]
    exact ⟨htrap, h⟩
  | true =>
    have hoperand : ¬(b = .pipeline → usesRs1 op = true →
        (t₁.pipeline.accessRegister i.rs1.toNat).isSome = true) :=
      fun hoperand => hblocked ⟨hop, hname, hext, hoperand⟩
    push Not at hoperand
    obtain ⟨hb, hrs1, hnone⟩ := hoperand
    have hnone : t₁.pipeline.accessRegister i.rs1.toNat = none := by simpa using hnone
    rw [exec_unready hop hname hprv hext hb hrs1 hnone,
      exec_unready hop hname hprv₂ (hmisa ▸ hext) hb hrs1 (hpipeline ▸ hnone)]
    exact ⟨rfl, h⟩

/-- From states that differ in the controls, an instruction does the same, unless it accesses `satp`
and `TVM` differs. -/
theorem exec_agree (hmaps : MapsCsrs env) (h : SameButControls t₁ t₂)
    (hprv : t₁.hart.prv = machineMode) (hsatp : PassesToSatp env b i op t₁ → SameTvm t₁ t₂) :
    Agree (SameButCopies (copyOf env i op)) (fun _ => SameButCopies (copyOf env i op))
      (exec env b i op t₁) (exec env b i op t₂) := by
  by_cases hcsr : IsCsr op
  · by_cases hstatus : NamesStatus env i.csr
    · rw [copyOf, if_pos ⟨hcsr, hstatus⟩, exec_csr b env i hcsr]
      exact lockstep_status hstatus op t₁ t₂ h
    rw [copyOf, if_neg fun hcopy => hstatus hcopy.2]
    by_cases hname : csrName env i.csr = .satp
    · by_cases hpasses : PassesToSatp env b i op t₁
      · have hshows : ShowsAccess env showTvm i.csr := fun _ x => by
          simp only [BitField.isSet, BitVec.getLsbD_and]
          rw [show showTvm.getLsbD 20 = true by decide, Bool.and_true]
        have hinstr := seen_csrInstr (m := showTvm) b hmaps hstatus hshows op
        rw [exec_csr b env i hcsr]
        have hmask : showTvm &&& hideControls = hideControls := by decide
        exact (hinstr.agree t₁ t₂ (alike_showTvm h (hsatp hpasses))).weaken
          (fun _ _ => alike_mask hmask) fun _ _ _ => alike_mask hmask
      · exact agree_blocked hcsr hname h hprv hpasses
    · have hinstr := seen_csrInstr (m := hideControls) b hmaps hstatus (fun h => absurd h hname) op
      rw [exec_csr b env i hcsr]
      exact hinstr.agree t₁ t₂ h
  · rw [copyOf, if_neg fun hcopy => hcsr hcopy.1]
    by_cases hchecks : ChecksControls op
    · rw [exec_machine hprv hchecks, exec_machine (h.prv ▸ hprv) hchecks]
      exact (inferInstance : Ignores (TimedHart.seen hideControls none)
        (lift (machineCase env op))).agree t₁ t₂ h
    · exact (seen_exec env i b hchecks hcsr).agree t₁ t₂ h

end Instr

/-! ### The step -/

section Step

variable {env : Env W} {b : Build} {t₁ t₂ : TimedHart W}

/-- What fetch and decoding keep. -/
def privilege (h : Hart W) : PrivilegeLevel × Word := (h.prv, h.csrs.mstatus)

instance : IntegerFrame (Unchanged (W := W) privilege) where
  regs _ _ := rfl
  pc _ _ := rfl
  status _ _ := rfl
  shallExit _ _ := rfl
  niceUart _ _ op := by cases op <;> rfl
  world _ _ := rfl

instance : DecodeFrame (Unchanged (W := W) privilege) where
  decoded _ _ _ := rfl

/-- The instruction of a step, with its fetch. -/
theorem execStep_agree (hmaps : MapsCsrs env) (h : SameButControls t₁ t₂)
    (hprv : t₁.hart.prv = machineMode) (hstarts : Starts t₁)
    (hsatp : AccessesSatp env b t₁ → SameTvm t₁ t₂) :
    Agree (SameButCopies (copied env t₁)) (fun _ => SameButCopies (copied env t₁))
      (execStep env b { t₁ with hart := startInstr t₁.hart })
      (execStep env b { t₂ with hart := startInstr t₂.hart }) := by
  have hstart : Alike (Hart.seen hideControls none) (startInstr t₁.hart) (startInstr t₂.hart) :=
    congrArg (fun t : TimedHart W => startInstr t.hart)
      (show t₁.seen hideControls none = t₂.seen hideControls none from h)
  have hpipeline : t₁.pipeline = t₂.pipeline := Alike.eq (f := TimedHart.pipeline) h fun _ => rfl
  have hkept := (respects_fetch : Respects (Unchanged privilege) (fetch env)).rel
  have hagree := (inferInstance : Ignores (Hart.seen hideControls none) (fetch env)).agree _ _ hstart
  have htimed {h₁ h₂ : Hart W} (hh : Alike (Hart.seen hideControls none) h₁ h₂) :
      SameButControls { t₁ with hart := h₁ } { t₂ with hart := h₂ } :=
    congrArg₂ TimedHart.mk hh hpipeline
  have hkept₁ := hkept (startInstr t₁.hart)
  have hkept₂ := hkept (startInstr t₂.hart)
  rw [execStep_eq, execStep_eq]
  unfold copied
  cases hf₁ : fetch env (startInstr t₁.hart) <;> cases hf₂ : fetch env (startInstr t₂.hart) <;>
    rw [hf₁, hf₂] at hagree
  · rename_i h₁ _ h₂
    rw [hf₁] at hkept₁
    rw [hf₂] at hkept₂
    have hinstr : h₁.instr = h₂.instr := Alike.eq (f := Hart.instr) hagree.2 fun _ => rfl
    have hop : h₁.op = h₂.op := Alike.eq (f := Hart.op) hagree.2 fun _ => rfl
    have hprv₁ : h₁.prv = machineMode := (congrArg Prod.fst hkept₁).trans hprv
    simp only [← hinstr, ← hop]
    refine exec_agree hmaps (htimed hagree.2) hprv₁ fun hpasses => ?_
    have hsame : SameTvm t₁ t₂ := hsatp ⟨hstarts, h₁, hf₁, hpasses⟩
    have hstatus₁ : h₁.csrs.mstatus = t₁.hart.csrs.mstatus := congrArg Prod.snd hkept₁
    have hstatus₂ : h₂.csrs.mstatus = t₂.hart.csrs.mstatus := congrArg Prod.snd hkept₂
    show Mstatus.tvm.isSet h₁.csrs.mstatus = Mstatus.tvm.isSet h₂.csrs.mstatus
    rw [hstatus₁, hstatus₂]
    exact hsame
  · exact hagree.elim
  · exact hagree.elim
  · exact ⟨hagree.1, htimed hagree.2⟩

/-- From states that differ in the controls a step does the same if its instruction does. -/
theorem runStep_agree {o : Option RegIdx} (h : SameButControls t₁ t₂)
    (hexec : Starts t₁ → Agree (SameButCopies o) (fun _ => SameButCopies o)
      (execStep env b { t₁ with hart := startInstr t₁.hart })
      (execStep env b { t₂ with hart := startInstr t₂.hart })) :
    Agree (SameButCopies o) (fun _ => SameButCopies o) (runStep env b t₁) (runStep env b t₂) := by
  have hcopies (t t' : TimedHart W) (h : SameButControls t t') : SameButCopies o t t' :=
    alike_copies h
  have hzero : t₁.hart.regs 0 = t₂.hart.regs 0 :=
    Alike.eq (f := fun t => t.hart.regs 0) h fun _ => rfl
  have hbreak : atBreakpoint t₁.hart = atBreakpoint t₂.hart :=
    Alike.eq (f := fun t => atBreakpoint t.hart) h fun _ => rfl
  have hhit : SameButCopies o { t₁ with hart := hitBreakpoint t₁.hart }
      { t₂ with hart := hitBreakpoint t₂.hart } :=
    hcopies _ _ ((inferInstance : Ignores (TimedHart.seen hideControls none)
      (lift (modify hitBreakpoint : M W Unit))).agree t₁ t₂ h).2
  rw [runStep_eq, runStep_eq, ← hzero, ← hbreak]
  split_ifs with hz hb
  · exact ⟨rfl, hhit⟩
  · -- the instruction in lockstep, then what does not look at the bits
    have hinstr : Lockstep (SameButCopies o)
        (fun t t' => t = { t₁ with hart := startInstr t₁.hart } ∧
          t' = { t₂ with hart := startInstr t₂.hart })
        (execStep env b) (execStep env b) fun _ => SameButCopies o := by
      rintro _ _ ⟨rfl, rfl⟩
      exact hexec ⟨hz, by simpa using hb⟩
    have hdeliver := (inferInstance : Ignores (TimedHart.seen hideControls o)
      (lift (deliverInterrupt env))).agree
    have hcatch (e : Raise) := (inferInstance : Ignores (TimedHart.seen hideControls o)
      (lift (catchTrap env e))).agree
    have hafter := (inferInstance : Ignores (TimedHart.seen hideControls o)
      (afterInstr env b)).agree
    have htake := Lockstep.tryCatch (hinstr.bind fun _ => hdeliver) hcatch
    exact (htake.bind fun _ => hafter) _ _ ⟨rfl, rfl⟩
  · exact ⟨rfl, hcopies _ _ h⟩

/-! ### Main result -/

/-- Results that are the same but for copies have the same cause. -/
theorem cause_of_agree {o : Option RegIdx} {r₁ r₂ : EStateM.Result Raise (TimedHart W) Unit}
    (h : Agree (SameButCopies o) (fun _ => SameButCopies o) r₁ r₂) : cause r₁ = cause r₂ := by
  cases r₁ <;> cases r₂
  · have hpending := Alike.eq (f := fun t : TimedHart W => computePendingInterrupts t.hart) h.2
      fun t => computePendingInterrupts_seen t.hart
    exact congrArg (Option.map Sum.inr) hpending
  · exact h.elim
  · exact h.elim
  · exact congrArg (fun e => some (Sum.inl e)) h.1

/-- An access to `satp` traps exactly if `TVM` is set. -/
theorem satp_cause (hmaps : MapsCsrs env) {t : TimedHart W} (hprv : t.hart.prv = machineMode)
    {h : Hart W} (hf : fetch env (startInstr t.hart) = .ok () h)
    (hpasses : PassesToSatp env b h.instr h.op { t with hart := h }) :
    Mstatus.tvm.isSet t.hart.csrs.mstatus = true ↔
      ∃ e, IsTrap e ∧ cause (execStep env b { t with hart := startInstr t.hart }) = some (.inl e) := by
  have hkept := (respects_fetch : Respects (Unchanged privilege) (fetch env)).rel (startInstr t.hart)
  rw [hf] at hkept
  have hprv' : h.prv = machineMode := (congrArg Prod.fst hkept).trans hprv
  have hstatus : h.csrs.mstatus = t.hart.csrs.mstatus := congrArg Prod.snd hkept
  rw [execStep_of_fetch env b hf, ← hstatus]
  constructor
  · intro htvm
    obtain ⟨t', htrap⟩ := hpasses.traps (t := { t with hart := h }) hprv' htvm
    exact ⟨illegalTrap h, ⟨_, rfl⟩, by rw [htrap]; rfl⟩
  · rintro ⟨e, htrap, hcause⟩
    by_contra hclear
    cases hexec : exec env b h.instr h.op { t with hart := h } with
    | ok _ t' =>
      rw [hexec] at hcause
      simp [cause] at hcause
    | error e' t' =>
      rw [hexec] at hcause
      cases hcause
      exact not_trap_of_clear hmaps hpasses hprv' (by simpa using hclear) hexec htrap

/-- The other state gets as far. -/
theorem passes_alike (h : SameButControls t₁ t₂) {h₁ : Hart W}
    (hf₁ : fetch env (startInstr t₁.hart) = .ok () h₁)
    (hpasses : PassesToSatp env b h₁.instr h₁.op { t₁ with hart := h₁ }) :
    ∃ h₂, fetch env (startInstr t₂.hart) = .ok () h₂ ∧
      PassesToSatp env b h₂.instr h₂.op { t₂ with hart := h₂ } := by
  have hstart : Alike (Hart.seen hideControls none) (startInstr t₁.hart) (startInstr t₂.hart) :=
    congrArg (fun t : TimedHart W => startInstr t.hart)
      (show t₁.seen hideControls none = t₂.seen hideControls none from h)
  have hpipeline : t₁.pipeline = t₂.pipeline := Alike.eq (f := TimedHart.pipeline) h fun _ => rfl
  have hagree := (inferInstance : Ignores (Hart.seen hideControls none) (fetch env)).agree _ _ hstart
  rw [hf₁] at hagree
  cases hf₂ : fetch env (startInstr t₂.hart) with
  | error e h₂ =>
    rw [hf₂] at hagree
    exact hagree.elim
  | ok _ h₂ =>
    rw [hf₂] at hagree
    have hinstr : h₁.instr = h₂.instr := Alike.eq (f := Hart.instr) hagree.2 fun _ => rfl
    have hop : h₁.op = h₂.op := Alike.eq (f := Hart.op) hagree.2 fun _ => rfl
    have hmisa : h₁.csrs.misa = h₂.csrs.misa :=
      Alike.eq (f := fun h => h.csrs.misa) hagree.2 fun _ => rfl
    rw [hinstr, hop] at hpasses
    exact ⟨h₂, rfl, hpasses.isCsr, hpasses.satp, hmisa ▸ hpasses.supervisor,
      fun hb hrs1 => hpipeline ▸ hpasses.operand hb hrs1⟩

/-- In machine mode a step feels none of the controls, unless it accesses `satp` and the states differ
in `TVM`. -/
theorem controlsIgnored_iff (hmaps : MapsCsrs env) (h : SameButControls t₁ t₂)
    (hprv : t₁.hart.prv = machineMode) :
    ControlsIgnored env b t₁ t₂ ↔ (AccessesSatp env b t₁ → SameTvm t₁ t₂) := by
  constructor
  · rintro hignored ⟨hstarts, h₁, hf₁, hpasses₁⟩
    obtain ⟨h₂, hf₂, hpasses₂⟩ := passes_alike h hf₁ hpasses₁
    have htraps₁ := satp_cause hmaps hprv hf₁ hpasses₁
    have htraps₂ := satp_cause hmaps (h.prv ▸ hprv) hf₂ hpasses₂
    rw [hignored.traps hstarts, ← htraps₂] at htraps₁
    exact Bool.eq_iff_iff.2 htraps₁
  · intro hsatp
    have hexec (hstarts : Starts t₁) := execStep_agree hmaps h hprv hstarts hsatp
    exact ⟨fun hstarts => cause_of_agree (hexec hstarts), runStep_agree h hexec⟩

end Step

/-! ### On bare memory -/

/-- The platform, with `satp` among the registers that `default_read32` knows. -/
def Env.paged : Env BareMemory :=
  { Env.bare with
    isValidCsr32Addr := fun addr => addr = 0x180 || Env.bare.isValidCsr32Addr addr
    defaultRead32 := fun c addr => if addr = 0x180 then c.satp else c.others addr }

theorem mapsCsrs_paged : MapsCsrs Env.paged where
  read _ _ _ _ := rfl
  write _ _ _ _ _ := rfl
  satp addr hname := by
    have htable : ∀ p ∈ csrTable, p.2 = .satp → p.1 = 0x180 := by decide
    have hmem := mem_csrTable Env.paged addr (by simp [hname]) (by simp [hname])
    have haddr := htable (addr, csrName Env.paged addr) hmem hname
    show (decide (addr = 0x180) || _) = true
    rw [show addr = 0x180 from haddr]
    rfl

/-- A hart in machine mode, with supervisor mode, on a memory of one instruction. -/
def machineHart (mstatus w : Word) : TimedHart BareMemory where
  hart := .reset machineMode 0x00140101 mstatus fun _ => w
  pipeline := .empty 0

/-- `CSRRSI x5, mstatus, 0` copies `TVM`, and does nothing else that depends on it. -/
theorem mstatus_controlsIgnored : ControlsIgnored Env.paged .pipeline
    (machineHart 0x00100000 0x300062F3) (machineHart 0 0x300062F3) := by
  have hsame : SameButControls (machineHart 0x00100000 0x300062F3) (machineHart 0 0x300062F3) := rfl
  refine (controlsIgnored_iff mapsCsrs_paged hsame rfl).2 ?_
  rintro ⟨-, h, hf, hpasses⟩
  cases hf
  have hname : csrName Env.paged 0x300 = .mstatus := rfl
  have hsatp : csrName Env.paged 0x300 = .satp := hpasses.satp
  rw [hname] at hsatp
  cases hsatp

/-- `CSRRSI x5, satp, 0` traps if `TVM` is set, and returns if it is clear. -/
theorem not_controlsIgnored_satp :
    SameButControls (machineHart 0x00100000 0x180062F3) (machineHart 0 0x180062F3) ∧
      (machineHart 0x00100000 0x180062F3).hart.prv = machineMode ∧
      ¬ControlsIgnored Env.paged .plain (machineHart 0x00100000 0x180062F3)
        (machineHart 0 0x180062F3) := by
  refine ⟨rfl, rfl, fun hignored => ?_⟩
  have htraps := hignored.traps ⟨rfl, rfl⟩
  cases htraps

end Vcil.Iss
