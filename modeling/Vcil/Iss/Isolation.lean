import Vcil.Iss.StepFrames

/-!
# Isolation of the upper modes

Software that runs below a mode can neither write what the mode and those above it own, nor run at
their levels: the hart gets there through the handler that they have set up, and finds everything as
it was left but for the record of the trap.

* `Csrs.setup`, `Csrs.record`, `Mode.stackBits`, …: what a mode owns;
* `KeptAbove m x c c'`: what `m` and the modes above own is kept, but for a trap record of `x`;
* `Env.Separates`: the masks and the registers of the platform keep the modes apart;
* `Entered`: the hart is at the handler of one of them;
* `isolated_below`: the runs below a mode.
-/

namespace Vcil.Iss

open Fallible

variable {W : Type}

/-! ### What a mode owns -/

namespace Csrs

variable (c : Csrs)

/-- The registers that only software writes. -/
def setup : Mode → List Word
  | .machine => [c.misa, c.mhartid, c.mtvec, c.mideleg, c.medeleg, c.mcounteren, c.mcountinhibit]
  | .supervisor => [c.stvec, c.sideleg, c.sedeleg, c.scounteren, c.satp]
  | .user => [c.utvec]

/-- The registers that a trap writes. -/
def record : Mode → List Word
  | .machine => [c.mepc, c.mcause, c.mtval]
  | .supervisor => [c.sepc, c.scause, c.stval]
  | .user => [c.uepc, c.ucause, c.utval]

end Csrs

namespace Mode

/-- The bits of `mstatus` that a trap writes. -/
def stackBits : Mode → Word
  | machine => Mstatus.mie.mask ||| Mstatus.mpie.mask ||| Mstatus.mpp.mask
  | supervisor => Mstatus.sie.mask ||| Mstatus.spie.mask ||| Mstatus.spp.mask
  | user => Mstatus.uie.mask ||| Mstatus.upie.mask

/-- The bits of `mstatus` that only software writes. -/
def controlBits : Mode → Word
  | machine => Mstatus.mprv.mask ||| Mstatus.tvm.mask ||| Mstatus.tw.mask ||| Mstatus.tsr.mask
  | supervisor => Mstatus.sum.mask ||| Mstatus.mxr.mask
  | user => 0

/-- The bits of `mie`. -/
def interruptBits : Mode → Word
  | machine => Mip.msip.mask ||| Mip.mtip.mask ||| Mip.meip.mask
  | supervisor => Mip.ssip.mask ||| Mip.stip.mask ||| Mip.seip.mask
  | user => Mip.usip.mask ||| Mip.utip.mask ||| Mip.ueip.mask

end Mode

/-- From `c` to `c'`, what `m` and the modes above it own is kept, but for the record of a trap to
`x`, if any. -/
structure KeptAbove (m : Mode) (x : Option Mode) (c c' : Csrs) : Prop where
  setup : ∀ m' : Mode, m.level ≤ m'.level → c'.setup m' = c.setup m'
  control : ∀ m' : Mode, m.level ≤ m'.level →
    c'.mstatus &&& m'.controlBits = c.mstatus &&& m'.controlBits
  interrupts : ∀ m' : Mode, m.level ≤ m'.level →
    c'.mie &&& m'.interruptBits = c.mie &&& m'.interruptBits
  others : ∀ addr, m.level ≤ csrPrv addr → c'.others addr = c.others addr
  record : ∀ m' : Mode, m.level ≤ m'.level → x ≠ some m' → c'.record m' = c.record m'
  stack : ∀ m' : Mode, m.level ≤ m'.level → x ≠ some m' →
    c'.mstatus &&& m'.stackBits = c.mstatus &&& m'.stackBits

namespace KeptAbove

variable {m : Mode} {x : Option Mode} {c c' c'' : Csrs}

theorem refl (m : Mode) (x : Option Mode) (c : Csrs) : KeptAbove m x c c :=
  ⟨fun _ _ => rfl, fun _ _ => rfl, fun _ _ => rfl, fun _ _ => rfl, fun _ _ _ => rfl,
    fun _ _ _ => rfl⟩

theorem trans (h₁ : KeptAbove m x c c') (h₂ : KeptAbove m x c' c'') : KeptAbove m x c c'' where
  setup m' hm := (h₂.setup m' hm).trans (h₁.setup m' hm)
  control m' hm := (h₂.control m' hm).trans (h₁.control m' hm)
  interrupts m' hm := (h₂.interrupts m' hm).trans (h₁.interrupts m' hm)
  others addr ha := (h₂.others addr ha).trans (h₁.others addr ha)
  record m' hm hx := (h₂.record m' hm hx).trans (h₁.record m' hm hx)
  stack m' hm hx := (h₂.stack m' hm hx).trans (h₁.stack m' hm hx)

theorem weaken (h : KeptAbove m none c c') (x : Option Mode) : KeptAbove m x c c' where
  setup := h.setup
  control := h.control
  interrupts := h.interrupts
  others := h.others
  record m' hm _ := h.record m' hm (by simp)
  stack m' hm _ := h.stack m' hm (by simp)

/-- Nothing of these modes has changed. -/
theorem of_modes (hmodes : ∀ m' : Mode, m.level ≤ m'.level → c'.setup m' = c.setup m' ∧
      c'.record m' = c.record m' ∧ c'.mstatus &&& m'.controlBits = c.mstatus &&& m'.controlBits ∧
      c'.mstatus &&& m'.stackBits = c.mstatus &&& m'.stackBits ∧
      c'.mie &&& m'.interruptBits = c.mie &&& m'.interruptBits)
    (hothers : c'.others = c.others) : KeptAbove m x c c' where
  setup m' hm := (hmodes m' hm).1
  control m' hm := (hmodes m' hm).2.2.1
  interrupts m' hm := (hmodes m' hm).2.2.2.2
  others addr _ := by rw [hothers]
  record m' hm _ := (hmodes m' hm).2.1
  stack m' hm _ := (hmodes m' hm).2.2.2.1

/-- Nobody owns the pending bits. -/
theorem pending (m : Mode) (x : Option Mode) (c : Csrs) (mip : Word) :
    KeptAbove m x c { c with mip := mip } := by
  refine .of_modes (fun m' _ => ?_) rfl
  cases m' <;> exact ⟨rfl, rfl, rfl, rfl, rfl⟩

end KeptAbove

/-- The masks and the registers of the platform keep the modes apart, and the unlock of the bus
raises no trap. -/
structure Env.Separates (env : Env W) : Prop where
  sstatus : env.masks.sstatus &&& (Mode.machine.controlBits ||| Mode.machine.stackBits) = 0
  ustatus : ∀ m : Mode, m ≠ .user → env.masks.ustatus &&& (m.controlBits ||| m.stackBits) = 0
  sie : env.masks.sie &&& Mode.machine.interruptBits = 0
  uie : ∀ m : Mode, m ≠ .user → env.masks.uie &&& m.interruptBits = 0
  default : ∀ (m : Mode) c addr v, csrPrv addr < m.level →
    KeptAbove m none c (env.defaultWrite32 c addr v)
  unlock : ∀ view w e w', env.atomicUnlock view w = (.error e, w') → ¬IsTrap e

/-! ### Instructions -/

/-- What `m` and the modes above it own is kept, from one hart to another. -/
def KeptHart (m : Mode) (h h' : Hart W) : Prop := KeptAbove m none h.csrs h'.csrs

section Frames

variable {m : Mode}

instance : IsPreorder (Hart W) (KeptHart m) where
  refl h := .refl m none h.csrs
  trans _ _ _ h₁ h₂ := h₁.trans h₂

theorem keptHart_of_eq {h h' : Hart W} (hcsrs : h'.csrs = h.csrs) : KeptHart m h h' := by
  unfold KeptHart
  rw [hcsrs]
  exact .refl m none h.csrs

theorem keptHart_of_modes {h h' : Hart W} (hsetup : ∀ m', h'.csrs.setup m' = h.csrs.setup m')
    (hrecord : ∀ m', h'.csrs.record m' = h.csrs.record m')
    (hmstatus : h'.csrs.mstatus = h.csrs.mstatus) (hmie : h'.csrs.mie = h.csrs.mie)
    (hothers : h'.csrs.others = h.csrs.others) : KeptHart m h h' := by
  refine .of_modes (fun m' _ => ⟨hsetup m', hrecord m', ?_, ?_, ?_⟩) hothers
  · rw [hmstatus]
  · rw [hmstatus]
  · rw [hmie]

instance : IntegerFrame (KeptHart (W := W) m) where
  regs _ _ := keptHart_of_eq rfl
  pc _ _ := keptHart_of_eq rfl
  status _ _ := keptHart_of_eq rfl
  shallExit _ _ := keptHart_of_eq rfl
  niceUart _ _ op := keptHart_of_eq (by cases op <;> rfl)
  world _ _ := keptHart_of_modes (fun m' => by cases m' <;> rfl) (fun m' => by cases m' <;> rfl)
    rfl rfl rfl

instance : WindowFrame (KeptHart (W := W) m) where
  lrScCounter _ _ := keptHart_of_eq rfl

instance : DecodeFrame (KeptHart (W := W) m) where
  decoded _ _ _ := keptHart_of_eq rfl

instance : CounterFrame (KeptHart (W := W) m) where
  time _ _ := keptHart_of_modes (fun m' => by cases m' <;> rfl) (fun m' => by cases m' <;> rfl)
    rfl rfl rfl
  cycle _ _ := keptHart_of_modes (fun m' => by cases m' <;> rfl) (fun m' => by cases m' <;> rfl)
    rfl rfl rfl

end Frames

/-! ### CSR writes -/

section Writes

variable {env : Env W} {m n : Mode} {addr : CsrAddr}

theorem ne_user_of_lt {m' : Mode} (hlt : n.level < m'.level) : m' ≠ .user := by
  rintro rfl
  exact absurd hlt (BitVec.not_lt_zero)

theorem eq_machine_of_lt {m' : Mode} (hlt : Mode.supervisor.level < m'.level) : m' = .machine := by
  revert hlt
  cases m' <;> decide

/-- A write to registers of a mode below `m`. -/
theorem kept_of_below (hlt : n.level < m.level) {c c' : Csrs}
    (hsetup : ∀ m', m' ≠ n → c'.setup m' = c.setup m')
    (hrecord : ∀ m', m' ≠ n → c'.record m' = c.record m') (hmstatus : c'.mstatus = c.mstatus)
    (hmie : c'.mie = c.mie) (hothers : c'.others = c.others) : KeptAbove m none c c' := by
  refine .of_modes (fun m' hm => ?_) hothers
  have hne : m' ≠ n := by
    rintro rfl
    exact absurd hlt (BitVec.not_lt.2 hm)
  exact ⟨hsetup m' hne, hrecord m' hne, by rw [hmstatus], by rw [hmstatus], by rw [hmie]⟩

theorem lt_of_below (hlt : n.level < m.level) {m' : Mode} (hm : m.level ≤ m'.level) :
    n.level < m'.level := by
  rw [BitVec.lt_def] at *
  rw [BitVec.le_def] at hm
  omega

/-- A write to `mstatus` that keeps the bits of these modes. -/
theorem kept_mstatus {c : Csrs} {s : Word} {x : Option Mode} (hs : ∀ m' : Mode, m.level ≤ m'.level →
    s &&& m'.controlBits = c.mstatus &&& m'.controlBits ∧
      s &&& m'.stackBits = c.mstatus &&& m'.stackBits) :
    KeptAbove m x c { c with mstatus := s } := by
  refine .of_modes (fun m' hm => ?_) rfl
  exact ⟨by cases m' <;> rfl, by cases m' <;> rfl, (hs m' hm).1, (hs m' hm).2, rfl⟩

theorem kept_writeMasked {mask : Word} (hlt : n.level < m.level) (hmask : ∀ m' : Mode,
    n.level < m'.level → mask &&& (m'.controlBits ||| m'.stackBits) = 0) (c : Csrs) (v : Word) :
    KeptAbove m none c { c with mstatus := writeMasked c.mstatus v mask } := by
  refine kept_mstatus fun m' hm => ?_
  have hbits := hmask m' (lt_of_below hlt hm)
  rw [BitVec.and_or_distrib_left] at hbits
  obtain ⟨hcontrol, hstack⟩ := BitVec.or_eq_zero_iff.1 hbits
  exact ⟨writeMasked_and hcontrol _ _, writeMasked_and hstack _ _⟩

theorem kept_mie {mask : Word} (hlt : n.level < m.level)
    (hmask : ∀ m' : Mode, n.level < m'.level → mask &&& m'.interruptBits = 0) (c : Csrs)
    (v : Word) : KeptAbove m none c { c with mie := writeMasked c.mie v mask } := by
  refine .of_modes (fun m' hm => ?_) rfl
  exact ⟨by cases m' <;> rfl, by cases m' <;> rfl, rfl, rfl,
    writeMasked_and (hmask m' (lt_of_below hlt hm)) _ _⟩

/-- The level of the registers with a name. -/
theorem csrPrv_of_table {name : CsrName} {p : PrivilegeLevel} (hname : csrName env addr = name)
    (hhpm : name ≠ .hpmcounter) (hother : name ≠ .other)
    (htable : ∀ q ∈ csrTable, q.2 = name → csrPrv q.1 = p) : csrPrv addr = p := by
  have hmem := mem_csrTable env addr (by rw [hname]; exact hhpm) (by rw [hname]; exact hother)
  exact htable (addr, csrName env addr) hmem hname

/-- A write through an address below `m`. -/
theorem respects_setCsrValue (henv : env.Separates) (haddr : csrPrv addr < m.level) (v : Word) :
    Respects (KeptHart m) (setCsrValue env addr v) := by
  have hset {f : Csrs → Csrs} (hf : ∀ c, KeptAbove m none c (f c)) :
      Respects (KeptHart m) (setCsrs f : M W Unit) := .modify fun h => hf h.csrs
  have hdefault : Respects (KeptHart m) (setCsrs fun c => env.defaultWrite32 c addr v) :=
    hset fun c => henv.default m c addr v haddr
  have hmachine (hprv : csrPrv addr = machineMode) : False :=
    absurd (hprv ▸ haddr) (BitVec.not_lt.2 (le_machineMode _))
  have hsupervisor (hprv : csrPrv addr = supervisorMode) : Mode.supervisor.level < m.level := by
    rwa [hprv] at haddr
  have huser (hprv : csrPrv addr = userMode) : Mode.user.level < m.level := by
    rwa [hprv] at haddr
  unfold setCsrValue
  cases hname : csrName env addr
  -- the registers of machine mode
  case mstatus | mip | mie | mtvec | mepc | mideleg | medeleg | mcounteren | mcountinhibit =>
    exact (hmachine (csrPrv_of_table hname nofun nofun (by decide))).elim
  -- those of supervisor mode
  case stvec | sepc | sideleg | sedeleg | scounteren | sip =>
    have hlt := hsupervisor (csrPrv_of_table hname nofun nofun (by decide))
    refine hset fun c => kept_of_below hlt (fun m' hm => ?_) (fun m' hm => ?_) rfl rfl rfl
    all_goals cases m' <;> first | rfl | exact absurd rfl hm
  -- those of user mode
  case utvec | uepc | uip | fcsr | fflags | frm =>
    have hlt := huser (csrPrv_of_table hname nofun nofun (by decide))
    refine hset fun c => kept_of_below hlt (fun m' hm => ?_) (fun m' hm => ?_) rfl rfl rfl
    all_goals cases m' <;> first | rfl | exact absurd rfl hm
  case satp =>
    have hlt := hsupervisor (csrPrv_of_table hname nofun nofun (by decide))
    have hsatp : Respects (KeptHart m) (setCsrs fun c =>
        { c with satp := writeMasked c.satp v env.masks.satp } : M W Unit) := by
      refine hset fun c => kept_of_below hlt (fun m' hm => ?_) (fun m' hm => ?_) rfl rfl rfl
      all_goals cases m' <;> first | rfl | exact absurd rfl hm
    infer_instance
  case sstatus =>
    have hlt := hsupervisor (csrPrv_of_table hname nofun nofun (by decide))
    refine hset fun c => kept_writeMasked hlt (fun m' hm => ?_) c v
    rw [eq_machine_of_lt hm]
    exact henv.sstatus
  case sie =>
    have hlt := hsupervisor (csrPrv_of_table hname nofun nofun (by decide))
    refine hset fun c => kept_mie hlt (fun m' hm => ?_) c v
    rw [eq_machine_of_lt hm]
    exact henv.sie
  case ustatus =>
    have hlt := huser (csrPrv_of_table hname nofun nofun (by decide))
    exact hset fun c => kept_writeMasked hlt (fun m' hm => henv.ustatus m' (ne_user_of_lt hm)) c v
  case uie =>
    have hlt := huser (csrPrv_of_table hname nofun nofun (by decide))
    exact hset fun c => kept_mie hlt (fun m' hm => henv.uie m' (ne_user_of_lt hm)) c v
  all_goals infer_instance

end Writes

/-! ### Floating-point instructions -/

/-- No mode owns the fields that track the floating-point state. -/
instance {m : Mode} : DirtyFrame (KeptHart (W := W) m) where
  fpRegs _ _ := keptHart_of_eq rfl
  exceptionFlags _ _ := keptHart_of_eq rfl
  roundingMode _ _ := keptHart_of_eq rfl
  fcsr _ _ := keptHart_of_modes (fun m' => by cases m' <;> rfl) (fun m' => by cases m' <;> rfl)
    rfl rfl rfl
  marks h h' hset := by
    have hput (f : BitField) (hf : ∀ m' : Mode, f.get m'.controlBits = 0 ∧ f.get m'.stackBits = 0)
        (v : BitVec f.len) : Respects (KeptHart m) (setMstatus f v : M W Unit) :=
      .modify fun h => kept_mstatus fun m' _ =>
        ⟨f.put_and (hf m').1 v h.csrs.mstatus, f.put_and (hf m').2 v h.csrs.mstatus⟩
    have hsd := hput Mstatus.sd (fun m' => by cases m' <;> decide) 1#1
    have hfs := hput Mstatus.fs (fun m' => by cases m' <;> decide) fsDirty
    unfold fpSetDirty at hset
    exact Respects.ok hset

/-! ### Instructions -/

section Exec

variable {env : Env W} (b : Build) {m n : Mode} {i : Instruction} {op : Opcode}
  {t t' : TimedHart W}

theorem kept_leave (hlt : n.level < m.level) (c : Csrs) : KeptAbove m none c (c.leave n) := by
  have hleave : c.leave n = { c with mstatus := (c.leave n).mstatus } := by cases n <;> rfl
  rw [hleave]
  refine kept_mstatus fun m' hm => ?_
  have habove := lt_of_below hlt hm
  cases n with
  | machine => exact absurd habove (BitVec.not_lt.2 (le_machineMode _))
  | supervisor =>
    rw [eq_machine_of_lt habove]
    simp (disch := decide) only [Csrs.leave, BitField.put_and, and_self]
  | user =>
    have hne := ne_user_of_lt habove
    cases m' with
    | user => exact absurd rfl hne
    | supervisor => simp (disch := decide) only [Csrs.leave, BitField.put_and, and_self]
    | machine => simp (disch := decide) only [Csrs.leave, BitField.put_and, and_self]

theorem previousLevel_lt (hlt : n.level < m.level) (c : Csrs) : c.previousLevel n < m.level := by
  cases n with
  | machine => exact absurd hlt (BitVec.not_lt.2 (le_machineMode _))
  | supervisor =>
    rw [eq_machine_of_lt hlt]
    show (Mstatus.spp.get c.mstatus).setWidth 2 < machineMode
    generalize Mstatus.spp.get c.mstatus = spp
    revert spp
    decide
  | user => exact hlt

/-- The access check of a CSR instruction. -/
theorem csrPrv_le {h : Hart W} {addr : CsrAddr} (haccess : invalidCsrAccess h addr true = false) :
    csrPrv addr ≤ h.prv := by
  simp only [invalidCsrAccess, Bool.or_eq_false_iff] at haccess
  have hlevel := haccess.1.1.2
  exact BitVec.not_lt.1 (by simpa using hlevel)

theorem exec_csr_kept (henv : env.Separates) (hcsr : IsCsr op) (hprv : t.hart.prv < m.level) :
    KeptHart m t.hart (final (exec env b i op t)).hart := by
  cases hr : exec env b i op t with
  | ok _ t' =>
    rcases exec_csr_ok (R := KeptHart m) hcsr hr with ⟨-, hkept⟩ | ⟨-, old, h₁, hwrite⟩
    · exact hkept
    · have haddr : csrPrv i.csr < m.level := by
        have hle := csrPrv_le hwrite.access
        rw [BitVec.lt_def] at hprv ⊢
        rw [BitVec.le_def] at hle
        omega
      exact hwrite.before.trans ((respects_setCsrValue henv haddr _).ok hwrite.call)
  | error e t' =>
    rcases (closes_exec (R := KeptHart m) b env i hcsr).rel t with
      hkept | ⟨_, t₁, ⟨_, ⟨-, v, rfl⟩, rfl⟩, hkept, heq⟩
    · rwa [hr] at hkept
    · obtain ⟨h', hset, rfl⟩ := lift_error (heq.symm.trans hr)
      rw [setCsrValue_error hset] at *
      exact hkept

/-- What runs below `m` leaves what `m` owns, and stays below. -/
structure StaysBelow (m : Mode) (h h' : Hart W) : Prop where
  kept : KeptHart m h h'
  below : h'.prv < m.level

theorem exec_return_below (hop : IsReturn op) (hprv : t.hart.prv < m.level)
    (hmret : op = .mret → t.hart.prv = machineMode)
    (hsret : op = .sret → hasExt t.hart.csrs.misa .s = true → t.hart.prv ≠ userMode) :
    StaysBelow m t.hart (final (exec env b i op t)).hart := by
  have hleave {n : Mode} (hlt : n.level < m.level) : StaysBelow m t.hart (t.hart.leave n) :=
    ⟨kept_leave hlt t.hart.csrs, previousLevel_lt hlt t.hart.csrs⟩
  have hillegal : StaysBelow m t.hart t.hart := ⟨keptHart_of_eq rfl, hprv⟩
  rw [exec_return env b i hop, final_lift]
  rcases hop with rfl | rfl | rfl
  · show StaysBelow m t.hart (final (uret t.hart))
    have hlt : Mode.user.level < m.level := by
      rw [BitVec.lt_def] at hprv ⊢
      exact Nat.lt_of_le_of_lt (Nat.zero_le _) hprv
    unfold uret
    rw [illegalIf_bind]
    split_ifs
    · exact hillegal
    · rw [show (userMode : PrivilegeLevel) = Mode.user.level from rfl, returnFromTrapHandler_eq]
      exact hleave hlt
  · show StaysBelow m t.hart (final (sret t.hart))
    by_cases hext : hasExt t.hart.csrs.misa .s = true
    · have hlt : Mode.supervisor.level < m.level := by
        have hne := hsret rfl hext
        have hpos : Mode.supervisor.level ≤ t.hart.prv := by
          generalize t.hart.prv = p at hne
          revert p
          decide
        rw [BitVec.lt_def] at hprv ⊢
        exact Nat.lt_of_le_of_lt hpos hprv
      unfold sret
      rw [illegalIf_bind]
      split_ifs
      · exact hillegal
      · rw [show (supervisorMode : PrivilegeLevel) = Mode.supervisor.level from rfl,
          returnFromTrapHandler_eq]
        exact hleave hlt
    · rw [sret_eq, if_pos (by simp [hext])]
      exact hillegal
  · rw [hmret rfl] at hprv
    exact absurd hprv (BitVec.not_lt.2 (le_machineMode _))

theorem exec_below (henv : env.Separates) (hprv : t.hart.prv < m.level)
    (hmret : op = .mret → t.hart.prv = machineMode)
    (hsret : op = .sret → hasExt t.hart.csrs.misa .s = true → t.hart.prv ≠ userMode) :
    StaysBelow m t.hart (final (exec env b i op t)).hart := by
  by_cases hreturn : IsReturn op
  · exact exec_return_below b hreturn hprv hmret hsret
  have hlevel : (final (exec env b i op t)).hart.prv = t.hart.prv :=
    (respects_exec_prv env b i hreturn).rel t
  refine ⟨?_, by rwa [hlevel]⟩
  by_cases hcsr : IsCsr op
  · exact exec_csr_kept b henv hcsr hprv
  by_cases hfloat : IsFloat op = true
  · rw [exec_float env b i hfloat, final_lift]
    exact (respects_execFloat env i op).rel t.hart
  · exact (respects_exec_kind (R := KeptHart m) env i b hreturn (fun h => absurd h hcsr)
      (fun h => absurd h hfloat) fun _ => inferInstance).rel t

/-- Fetch and instruction. -/
theorem execStep_below (henv : env.Separates) (hprv : t.hart.prv < m.level) (hstarts : Starts t)
    (hallowed : ReturnsAllowed env t) : StaysBelow m t.hart
      (final (execStep env b { t with hart := startInstr t.hart })).hart := by
  have hkept := (respects_fetch : Respects (KeptHart m) (fetch env)).rel (startInstr t.hart)
  have hlevel :=
    (respects_fetch : Respects (Unchanged Hart.prv) (fetch env)).rel (startInstr t.hart)
  rw [execStep_eq]
  cases hf : fetch env (startInstr t.hart) with
  | error e h =>
    rw [hf] at hkept hlevel
    have hbelow : h.prv < m.level := by rwa [show h.prv = t.hart.prv from hlevel]
    exact ⟨hkept, hbelow⟩
  | ok _ h =>
    rw [hf] at hkept hlevel
    have hsame : h.prv = t.hart.prv := hlevel
    obtain ⟨hmret, hsret⟩ := hallowed hstarts h hf
    have hprv : h.prv < m.level := by rwa [hsame]
    have hexec := exec_below b (i := h.instr) (t := { t with hart := h }) henv hprv hmret hsret
    exact ⟨hkept.trans hexec.kept, hexec.below⟩

end Exec

/-! ### Traps -/

section Traps

variable {env : Env W} {m n : Mode} {c : Csrs} {h h' : Hart W} {pc : Word}

/-- A trap to `n` records itself in registers of `n`. -/
theorem kept_record {c' : Csrs} (hsetup : ∀ m', c'.setup m' = c.setup m')
    (hrecord : ∀ m', m' ≠ n → c'.record m' = c.record m') (hmstatus : c'.mstatus = c.mstatus)
    (hmie : c'.mie = c.mie) (hothers : c'.others = c.others) : KeptAbove m (some n) c c' where
  setup m' _ := hsetup m'
  control m' _ := by rw [hmstatus]
  interrupts m' _ := by rw [hmie]
  others addr _ := by rw [hothers]
  record m' _ hne := hrecord m' fun heq => hne (by rw [heq])
  stack m' _ _ := by rw [hmstatus]

theorem kept_setCause (c : Csrs) (cause : Word) : KeptAbove m (some n) c (c.setCause cause n) := by
  cases n
  all_goals
    refine kept_record (fun m' => by cases m' <;> rfl) (fun m' hne => ?_) rfl rfl rfl
    cases m' <;> first | rfl | exact absurd rfl hne

theorem kept_setTval (c : Csrs) (tval : Word) : KeptAbove m (some n) c (c.setTval tval n) := by
  cases n
  all_goals
    refine kept_record (fun m' => by cases m' <;> rfl) (fun m' hne => ?_) rfl rfl rfl
    cases m' <;> first | rfl | exact absurd rfl hne

theorem kept_enter (c : Csrs) (pp : PrivilegeLevel) (pc : Word) :
    KeptAbove m (some n) c (c.enter pp pc n) := by
  constructor
  · intro m' _
    cases n <;> cases m' <;> rfl
  · intro m' _
    cases n <;> cases m' <;> simp (disch := decide) only [Csrs.enter, BitField.put_and]
  · intro m' _
    cases n <;> rfl
  · intro addr _
    cases n <;> rfl
  · intro m' _ hne
    cases n <;> cases m' <;> first | rfl | exact absurd rfl hne
  · intro m' _ hne
    cases n <;> cases m' <;> first
      | exact absurd rfl hne
      | simp (disch := decide) only [Csrs.enter, BitField.put_and]

/-- A trap to a mode below `m` records nothing that `m` owns. -/
theorem KeptAbove.of_trap_below {c' : Csrs} (hkept : KeptAbove m (some n) c c')
    (hlt : n.level < m.level) :
    KeptAbove m none c c' := by
  have hne {m' : Mode} (hm : m.level ≤ m'.level) : some n ≠ some m' := by
    rintro ⟨rfl⟩
    exact absurd hlt (BitVec.not_lt.2 hm)
  exact ⟨hkept.setup, hkept.control, hkept.interrupts, hkept.others,
    fun m' hm _ => hkept.record m' hm (hne hm), fun m' hm _ => hkept.stack m' hm (hne hm)⟩

/-- The hart is at the handler of `n`, a mode not below `m`, and comes from below. -/
structure Entered (m n : Mode) (c : Csrs) (h : Hart W) : Prop where
  above : m.level ≤ n.level
  level : h.prv = n.level
  pc : h.pc = h.csrs.handler n
  previous : h.csrs.previousLevel n < m.level
  kept : KeptAbove m (some n) c h.csrs

/-- The entry records the trap, unlocks the bus and jumps to the handler. -/
theorem Entry.eq_recorded (he : Entry env n pc h h') : ∃ c w, KeptAbove m (some n) h.csrs c ∧
    h' = (({ h with lrScCounter := 0, pc := pc, csrs := c } : Hart W).setWorld w).enter n := by
  have hswitched {h₁ : Hart W} (hswitch : switchToTrapHandler env n.level h₁ = .ok () h') :
      ∃ w, h' = (({ h₁ with lrScCounter := 0 } : Hart W).setWorld w).enter n := by
    rw [switchToTrapHandler_eq] at hswitch
    cases hrelease : releaseLrScReservation env h₁ with
    | ok u h₂ =>
      rw [hrelease] at hswitch
      cases hswitch
      exact ⟨_, by rw [releaseLrScReservation_ok hrelease]⟩
    | error e h₂ =>
      rw [hrelease] at hswitch
      cases hswitch
  cases he with
  | exception hprepare hswitch =>
    obtain ⟨n', cause, tval, hn, -, rfl⟩ := prepareTrap_ok hprepare
    obtain rfl := level_injective hn
    obtain ⟨w, rfl⟩ := hswitched hswitch
    exact ⟨_, w, (kept_setCause _ cause).trans (kept_setTval _ tval), rfl⟩
  | interrupt hpending htarget hprepare hswitch =>
    obtain ⟨cause, rfl⟩ := prepareInterrupt_ok htarget hprepare
    obtain ⟨w, rfl⟩ := hswitched hswitch
    exact ⟨_, w, kept_setCause _ cause, rfl⟩

theorem previousLevel_enter_lt {p : PrivilegeLevel} (hp : p < m.level) (hm : m.level ≤ n.level)
    (c : Csrs) (pc : Word) : (c.enter p pc n).previousLevel n < m.level := by
  cases n with
  | machine =>
    rwa [show (c.enter p pc .machine).previousLevel .machine = p from
      Mstatus.mpp.get_put (by decide) _ _]
  | supervisor =>
    rw [show (c.enter p pc .supervisor).previousLevel .supervisor = (p.setWidth 1).setWidth 2 from
      congrArg (·.setWidth 2) (Mstatus.spp.get_put (by decide) _ _)]
    revert p
    cases m with
    | user => decide
    | supervisor => decide
    | machine => exact absurd hm (by decide)
  | user =>
    have hzero : m.level ≤ 0 := hm
    exact absurd hp (by rw [BitVec.lt_def]; rw [BitVec.le_def] at hzero; simp at hzero ⊢; omega)

theorem Entry.keptAbove (he : Entry env n pc h h') : KeptAbove m (some n) h.csrs h'.csrs := by
  obtain ⟨c, w, hkept, rfl⟩ := he.eq_recorded (m := m)
  exact (hkept.trans (.pending m (some n) c w.mip)).trans (kept_enter _ _ _)

theorem Entry.entered (he : Entry env n pc h h') (hprv : h.prv < m.level)
    (hm : m.level ≤ n.level) : Entered m n h.csrs h' := by
  have hkept := he.keptAbove (m := m)
  obtain ⟨c, w, -, rfl⟩ := he.eq_recorded (m := m)
  refine ⟨hm, rfl, ?_, previousLevel_enter_lt hprv hm _ pc, hkept⟩
  cases n <;> rfl

theorem Entry.below (he : Entry env n pc h h') (hn : n.level < m.level) : StaysBelow m h h' :=
  ⟨he.keptAbove.of_trap_below hn, by rwa [he.prv]⟩

/-- The hart still runs below `m`, or is at a handler that it has entered from there. -/
inductive Isolated (m : Mode) (h h' : Hart W) : Prop
  | below (hbelow : StaysBelow m h h')
  | entered (n : Mode) (hentered : Entered m n h.csrs h')

theorem Entry.isolated (he : Entry env n pc h h') (hprv : h.prv < m.level) : Isolated m h h' := by
  by_cases hm : m.level ≤ n.level
  · exact .entered n (he.entered hprv hm)
  · exact .below (he.below (BitVec.not_le.1 hm))

theorem StaysBelow.isolated {h'' : Hart W} (hbelow : StaysBelow m h h')
    (hisolated : Isolated m h' h'') : Isolated m h h'' := by
  cases hisolated with
  | below hrest => exact .below ⟨hbelow.kept.trans hrest.kept, hrest.below⟩
  | entered n hentered =>
    exact .entered n { hentered with kept := (hbelow.kept.weaken _).trans hentered.kept }

end Traps

/-! ### Steps -/

section Steps

variable {env : Env W} {b : Build} {m : Mode} {t t' : TimedHart W}

theorem takeStep_isolated (henv : env.Separates) (hprv : t.hart.prv < m.level) (hstarts : Starts t)
    (hallowed : ReturnsAllowed env t)
    (hr : takeStep env b { t with hart := startInstr t.hart } = .ok () t') :
    Isolated m t.hart t'.hart := by
  have hexec := execStep_below b henv hprv hstarts hallowed
  rcases takeStep_cases hr with ⟨t₁, h₁, hok, hdeliver, rfl⟩ |
    ⟨t₁, e, h₁, h₂, hok, hdeliver, hcatch, rfl⟩ | ⟨t₁, e, h₁, herror, hcatch, rfl⟩
  · rw [hok] at hexec
    refine hexec.isolated ?_
    rcases deliverInterrupt_entry hdeliver with ⟨-, rfl⟩ | ⟨n, he⟩
    · exact .below ⟨keptHart_of_eq rfl, hexec.below⟩
    · exact he.isolated hexec.below
  · rw [hok] at hexec
    obtain ⟨i, n, htarget, hprepare | ⟨h₃, -, hswitch⟩⟩ := deliverInterrupt_error hdeliver
    · obtain rfl := prepareInterrupt_error htarget hprepare
      obtain ⟨n, he⟩ := catchTrap_entry hcatch
      exact hexec.isolated (he.isolated hexec.below)
    · -- the unlock of the bus raises no trap
      obtain ⟨w, hcall, -⟩ := access_eq_error.1 (switchToTrapHandler_unlock hswitch)
      have hnot := henv.unlock _ _ _ _ hcall
      cases e with
      | trap x => exact absurd ⟨x, rfl⟩ hnot
      | _ => cases hcatch
  · rw [herror] at hexec
    obtain ⟨n, he⟩ := catchTrap_entry hcatch
    exact hexec.isolated (he.isolated hexec.below)

theorem keptAbove_of_settled {h h' : Hart W} (hsettled : Unchanged settled h h')
    (x : Option Mode) : KeptAbove m x h.csrs h'.csrs := by
  rw [settled_csrs hsettled]
  refine .of_modes (fun m' _ => ?_) rfl
  cases m' <;> exact ⟨rfl, rfl, rfl, rfl, rfl⟩

theorem Isolated.settle {h h₁ h₂ : Hart W} (hisolated : Isolated m h h₁)
    (hsettled : Unchanged settled h₁ h₂) : Isolated m h h₂ := by
  have hprv : h₂.prv = h₁.prv := congrArg (·.1) hsettled
  have hpc : h₂.pc = h₁.pc := congrArg (·.2.1) hsettled
  cases hisolated with
  | below hbelow =>
    refine .below ⟨hbelow.kept.trans (keptAbove_of_settled hsettled none), ?_⟩
    rw [hprv]
    exact hbelow.below
  | entered n hentered =>
    refine .entered n ⟨hentered.above, hprv.trans hentered.level, ?_, ?_,
      hentered.kept.trans (keptAbove_of_settled hsettled _)⟩
    · rw [hpc, hentered.pc, settled_csrs hsettled]
      cases n <;> rfl
    · have hprevious := hentered.previous
      rw [settled_csrs hsettled]
      cases n <;> exact hprevious

theorem runStep_isolated (henv : env.Separates) (hprv : t.hart.prv < m.level)
    (hallowed : ReturnsAllowed env t) (hr : runStep env b t = .ok () t') :
    Isolated m t.hart t'.hart := by
  rcases runStep_ok hr with ⟨-, rfl⟩ | ⟨hbreak, t₁, htake, hafter⟩
  · exact .below ⟨keptHart_of_eq rfl, hprv⟩
  · have hsettled := (respects_afterInstr_settled env b).rel t₁
    rw [hafter] at hsettled
    exact (takeStep_isolated henv hprv (starts_of_ok hr hbreak) hallowed htake).settle hsettled

end Steps

/-! ### Main result -/

/-- Whatever runs below a mode, with the returns that its level allows, leaves alone what that mode
and those above it own; when the hart comes to one of them, it is at the handler that the mode has
set up, and only the record of the trap has changed. -/
theorem isolated_below {env : Env W} (henv : env.Separates) (b : Build) {m : Mode}
    {t t' : TimedHart W} (hprv : t.hart.prv < m.level)
    (hrun : Run env b (fun t => t.hart.prv < m.level ∧ ReturnsAllowed env t) t t') :
    Isolated m t.hart t'.hart := by
  induction hrun with
  | refl => exact .below ⟨keptHart_of_eq rfl, hprv⟩
  | tail _ hstep ih =>
    obtain ⟨⟨hbelow, hallowed⟩, hr⟩ := hstep
    cases ih with
    | below hstay => exact hstay.isolated (runStep_isolated henv hbelow hallowed hr)
    | entered n hentered =>
      rw [hentered.level] at hbelow
      exact absurd hbelow (BitVec.not_lt.2 hentered.above)

theorem separates_bare : Env.bare.Separates where
  sstatus := by decide
  ustatus m hne := by cases m <;> first | exact absurd rfl hne | decide
  sie := by decide
  uie m hne := by cases m <;> first | exact absurd rfl hne | decide
  default m c addr v haddr := by
    refine ⟨fun m' _ => by cases m' <;> rfl, fun _ _ => rfl, fun _ _ => rfl, fun addr' ha => ?_,
      fun m' _ _ => by cases m' <;> rfl, fun _ _ _ => rfl⟩
    have hne : addr' ≠ addr := by
      rintro rfl
      exact absurd haddr (BitVec.not_lt.2 ha)
    exact Function.update_of_ne hne _ _
  unlock view w e w' hr := by cases hr

/-- A user program that sets bits of `mtvec`. -/
def userTvec : TimedHart BareMemory where
  hart := .reset userMode 0x00140100 0 fun _ => 0x305FE073
  pipeline := .empty 0

theorem isolated_below_userTvec : Isolated .machine userTvec.hart
    (final (runStep Env.bare .plain userTvec)).hart := by
  have hallowed : ReturnsAllowed Env.bare userTvec := by
    intro _ h hf
    cases hf
    exact ⟨nofun, nofun⟩
  exact isolated_below separates_bare .plain (by decide) (.single ⟨⟨by decide, hallowed⟩, rfl⟩)

end Vcil.Iss
