import Vcil.Iss.Frames
import Vcil.Timing.Scoreboard

/-!
# The two builds compared

Does `PIPELINE_TIMING` change what a program computes?  The two texts of most cases of `exec_step`
run in lockstep on the hart, the pipeline timing model on the side, and its assertions hold.

* `At V`: the two builds have the same hart, and the pipeline is in `V`;
* `Same`: two computations in lockstep;
* `same_read`, `lockstep_write`, `lockstep_lift`: the parts of a case;
* `same_opImm`, `same_load`, `same_csrChange`, …: one lemma for each family of cases.
-/

namespace Vcil.Iss

open Fallible
open Timing (Pipeline Range)

variable {W α : Type}

/-! ### Lockstep -/

/-- The hart is the same, and the pipeline is one of `V`. -/
def At (V : Pipeline → Prop) (h : Hart W) (t : TimedHart W) : Prop := t.hart = h ∧ V t.pipeline

/-- The two builds in lockstep, from valid pipelines to valid pipelines. -/
abbrev Same (m₁ : M W α) (m₂ : PM W α) : Prop :=
  Lockstep (At Pipeline.Valid) (At Pipeline.Valid) m₁ m₂ fun _ => At Pipeline.Valid

theorem lockstep_lift {V : Pipeline → Prop} (hV : ∀ p, V p → p.Valid) (m : M W α) :
    Lockstep (At Pipeline.Valid) (At V) m (lift m) fun _ => At V := by
  rintro h t ⟨rfl, hv⟩
  unfold lift
  cases m t.hart with
  | ok a h' => exact ⟨rfl, rfl, hv⟩
  | error e h' => exact ⟨rfl, rfl, hV _ hv⟩

theorem same_lift (m : M W α) : Same m (lift m) := lockstep_lift (fun _ hp => hp) m

theorem charge_ok {V V' : Pipeline → Prop} {call : Pipeline → Option Pipeline}
    (hcall : ∀ p, V p → ∃ p', call p = some p' ∧ V' p') (h : Hart W) (t : TimedHart W)
    (hP : At V h t) : ∃ u t', charge call t = .ok u t' ∧ At V' h t' := by
  obtain ⟨rfl, hv⟩ := hP
  obtain ⟨p', hp', hv'⟩ := hcall _ hv
  exact ⟨(), { t with pipeline := p' }, charge_of_some hp', rfl, hv'⟩

theorem same_access (r : RegIdx) (m : M W α) :
    Lockstep (At Pipeline.Valid) (At Pipeline.Valid) m
      (accessRegister r >>= fun _ => lift m : PM W α) fun _ => At (Pipeline.ReadyAt r.toNat) :=
  .right (charge_ok fun _ hp => hp.accessRegister _) fun _ =>
    lockstep_lift (fun _ hp => hp.valid) m

theorem same_read (r : RegIdx) : Same (W := W) (reg r) (read r) :=
  (same_access r (reg r)).weaken (fun _ _ hP => hP) fun _ _ _ hP => ⟨hP.1, hP.2.valid⟩

theorem same_shamt (r : RegIdx) : Same (W := W) (regShamt r) (shamt r) :=
  (same_access r (regShamt r)).weaken (fun _ _ hP => hP) fun _ _ _ hP => ⟨hP.1, hP.2.valid⟩

/-- A write leaves its register ready. -/
theorem lockstep_write (r : RegIdx) (v : Word) :
    Lockstep (At Pipeline.Valid) (At Pipeline.Valid) (setReg r v : M W Unit) (write r v)
      fun _ => At (Pipeline.ReadyAt r.toNat) := same_access r (setReg r v)

theorem same_write (r : RegIdx) (v : Word) : Same (W := W) (setReg r v) (write r v) :=
  (lockstep_write r v).weaken (fun _ _ hP => hP) fun _ _ _ hP => ⟨hP.1, hP.2.valid⟩

/-- A write, and the latency of its value. -/
theorem same_write_charge {r : RegIdx} {call : Pipeline → Option Pipeline}
    (hcall : ∀ p, p.ReadyAt r.toNat → ∃ p', call p = some p' ∧ p'.Valid) (v : Word) :
    Same (W := W) (setReg r v) (write r v >>= fun _ => charge call) :=
  (lockstep_write r v).bind_right (charge_ok hcall)

/-! ### Families of cases -/

section Families

variable (env : Env W) (i : Instruction)

theorem same_opImm (f : Word → Word → Word) : Same (W := W) (opImmPlain i f) (opImmPipeline i f) :=
  (same_read i.rs1).bind fun _ => same_write i.rd _

theorem same_op (f : Word → Word → Word) : Same (W := W) (opPlain i f) (opPipeline i f) :=
  (same_read i.rs1).bind fun _ => (same_read i.rs2).bind fun _ => same_write i.rd _

theorem same_shift (f : Word → ℕ → Word) : Same (W := W) (shiftPlain i f) (shiftPipeline i f) :=
  (same_read i.rs1).bind fun _ => (same_shamt i.rs2).bind fun _ => same_write i.rd _

theorem same_shiftImm (f : Word → ℕ → Word) :
    Same (W := W) (shiftImmPlain i f) (shiftImmPipeline i f) :=
  (same_read i.rs1).bind fun _ => same_write i.rd _

theorem same_auipc : Same (W := W) (auipcPlain i) (auipcPipeline i) := by
  refine .get_bind fun h t hP => ?_
  rw [hP.1]
  exact same_write i.rd _

theorem same_jal : Same (jalPlain env i) (jalPipeline env i) := by
  refine .get_bind fun h t hP => ?_
  rw [hP.1]
  exact (same_lift _).bind fun _ => (same_lift _).bind fun _ => same_write i.rd _

theorem same_jalr : Same (jalrPlain env i) (jalrPipeline env i) := by
  refine .get_bind fun h t hP => ?_
  rw [hP.1]
  exact (same_lift _).bind fun _ => (same_lift _).bind fun _ => same_write i.rd _

theorem same_store (size : ℕ) (check : Word → M W Unit) (f : Word → Word → Access W Unit) :
    Same (storePlain i check f) (storePipeline i size check f) := by
  refine (same_read i.rs1).bind fun a => (same_lift _).bind fun _ => (same_read i.rs2).bind fun v => ?_
  have hlegal := Timing.Call.legal_reserveStore ⟨a + i.sImm, a + i.sImm + BitVec.ofNat 32 size⟩
  exact (same_lift _).bind_right (charge_ok fun p hp => ⟨_, rfl, hp.reserveStore _ hlegal⟩)

/-- The calls that follow a load, a multiplication, a division and a CSR read. -/
theorem doLoad_ok (range : Range) (p : Pipeline) (hp : p.ReadyAt i.rd.toNat) :
    ∃ p', p.doLoad range i.rd.toNat 2 = some p' ∧ p'.Valid :=
  hp.call (c := .doLoad range i.rd.toNat 2) (Timing.Call.legal_doLoad range _) fun rd h => by
    cases h
    rfl

theorem doMult_ok (a b : Word) (p : Pipeline) (hp : p.ReadyAt i.rd.toNat) :
    ∃ p', p.doMult i.rd.toNat a b = some p' ∧ p'.Valid :=
  hp.call (c := .doMult i.rd.toNat a b) trivial fun rd h => by
    cases h
    rfl

theorem doDiv_ok (a b : Word) (p : Pipeline) (hp : p.ReadyAt i.rd.toNat) :
    ∃ p', p.doDiv i.rd.toNat a b = some p' ∧ p'.Valid :=
  hp.call (c := .doDiv i.rd.toNat a b) trivial fun rd h => by
    cases h
    rfl

theorem doCsr_ok (p : Pipeline) (hp : p.ReadyAt i.rd.toNat) :
    ∃ p', p.doCsr i.rd.toNat = some p' ∧ p'.Valid :=
  hp.call (c := .doCsr i.rd.toNat) trivial fun rd h => by
    cases h
    rfl

theorem same_load (size : ℕ) (check : Word → M W Unit) (f : Word → Access W Word) :
    Same (loadPlain i check f) (loadPipeline i size check f) := by
  refine (same_read i.rs1).bind fun a => (same_lift _).bind fun _ => (same_lift _).bind fun v => ?_
  exact same_write_charge (doLoad_ok i _) v

theorem same_branch (c : Word → Word → Bool) :
    Same (branchPlain env i c) (branchPipeline env i c) := by
  refine (same_read i.rs1).bind fun a => (same_read i.rs2).bind fun b => ?_
  exact .ite (fun _ => same_lift _) fun _ => .pure fun _ _ hP => hP

theorem same_mul (f : Word → Word → Word) : Same (W := W) (mulPlain i f) (mulPipeline i f) := by
  refine (same_lift _).bind fun _ => (same_read i.rs1).bind fun a => (same_read i.rs2).bind fun b => ?_
  exact same_write_charge (doMult_ok i a b) _

theorem same_div (f : Word → Word → Word) : Same (W := W) (mulPlain i f) (divPipeline i f) := by
  refine (same_lift _).bind fun _ => (same_read i.rs1).bind fun a => (same_read i.rs2).bind fun b => ?_
  exact same_write_charge (doDiv_ok i a b) _

theorem same_scW : Same (scWPlain env i) (scWPipeline env i) := by
  refine (same_lift _).bind fun _ => (same_read i.rs1).bind fun addr => (same_lift _).bind fun _ => ?_
  refine (same_read i.rs2).bind fun val => (same_write i.rd 1).bind fun _ => ?_
  exact (same_lift _).bind fun stored => (same_write i.rd _).bind fun _ => same_lift _

/-- A read, with the value it returns. -/
theorem lockstep_read_value (r : RegIdx) (c : Hart W) :
    Lockstep (At Pipeline.Valid) (fun h t => At Pipeline.Valid h t ∧ h = c) (reg r) (read r)
      fun a h t => (At Pipeline.Valid h t ∧ h = c) ∧ a = c.regs r := by
  rintro _ t ⟨hP, rfl⟩
  have hread := same_read r _ t hP
  cases hrt : read r t with
  | ok a t' =>
    rw [hrt] at hread
    obtain ⟨rfl, hP'⟩ := hread
    exact ⟨rfl, ⟨hP', rfl⟩, rfl⟩
  | error e t' =>
    rw [hrt] at hread
    exact hread.elim

/-- The product comes from the registers themselves, which the reads leave as they are. -/
theorem same_mulhsu : Same (W := W) (mulPlain i mulhsuResult) (mulhsuPipeline i) := by
  refine (same_lift _).bind fun _ => fun h t hP => ?_
  have hget (h' : Hart W) (t : TimedHart W) (hP : At Pipeline.Valid h' t ∧ h' = h) :
      ∃ u t', (get : PM W (TimedHart W)) t = .ok u t' ∧ At Pipeline.Valid h' t' ∧ u.hart = h :=
    ⟨t, t, rfl, hP.1, hP.1.1.trans hP.2⟩
  have hlock : Lockstep (At Pipeline.Valid) (fun h' t => At Pipeline.Valid h' t ∧ h' = h)
      (opPlain i mulhsuResult) (do
        let a ← read i.rs1
        let b ← read i.rs2
        let t ← get
        write i.rd (mulhsuResult (t.hart.regs i.rs1) (t.hart.regs i.rs2))
        charge fun p => p.doMult i.rd.toNat a b) fun _ => At Pipeline.Valid := by
    refine (lockstep_read_value i.rs1 h).bind fun a => .assume fun ha => ?_
    refine (lockstep_read_value i.rs2 h).bind fun b => .assume fun hb => ?_
    refine .right hget fun u => .assume fun hu => ?_
    rw [hu, ha, hb]
    exact same_write_charge (doMult_ok i _ _) _
  exact hlock h t ⟨hP, rfl⟩

end Families

/-! ### CSR instructions -/

section Csr

variable (env : Env W) (i : Instruction)

/-- The address of `mcycle` or `mcycleh`. -/
def IsCycle (addr : CsrAddr) : Prop := csrName env addr = .mcycle ∨ csrName env addr = .mcycleh

theorem getCsrValue_congr {addr : CsrAddr} (h : ¬IsCycle env addr) (c c' : M W (BitVec 64)) :
    getCsrValue env c addr = getCsrValue env c' addr := by
  unfold getCsrValue
  unfold IsCycle at h
  cases hname : csrName env addr <;> simp_all

theorem same_csrValue {addr : CsrAddr} (h : ¬IsCycle env addr) :
    Same (csrValuePlain env addr) (csrValuePipeline env addr) := by
  intro hart t hP
  show Agree _ _ (getCsrValue env computeAndGetCurrentCycles addr hart)
    (lift (getCsrValue env (pure t.pipeline.numTotalCycles) addr) t)
  rw [getCsrValue_congr env h computeAndGetCurrentCycles (pure t.pipeline.numTotalCycles)]
  exact same_lift _ hart t hP

theorem same_setRd (v : Word) : Same (W := W) (setRdPlain i v) (setRdPipeline i v) :=
  .ite (fun _ => same_write_charge (doCsr_ok i) v) fun _ => .pure fun _ _ hP => hP

theorem same_csrToRd (h : i.rd ≠ 0 → ¬IsCycle env i.csr) :
    Same (csrToRdPlain env i) (csrToRdPipeline env i) :=
  .ite (fun hrd => (same_csrValue env (h hrd)).bind fun v => same_write_charge (doCsr_ok i) v)
    fun _ => .pure fun _ _ hP => hP

theorem same_csrWrite {value : M W Word} {value' : PM W Word} (hvalue : Same value value')
    (h : i.rd ≠ 0 → ¬IsCycle env i.csr) :
    Same (csrWritePlain env i value) (csrWritePipeline env i value') := by
  refine (same_lift _).bind fun invalid => .ite (fun _ => same_lift _) fun _ => ?_
  refine hvalue.bind fun v => (same_csrToRd env i h).bind fun _ => ?_
  exact same_lift _

theorem same_csrChange (w : Bool) {value : M W Word} {value' : PM W Word}
    (hvalue : Same value value') (f : Word → Word → Word) (h : ¬IsCycle env i.csr) :
    Same (csrChangePlain env i w value f) (csrChangePipeline env i w w value' f) := by
  refine (same_lift _).bind fun invalid => .ite (fun _ => same_lift _) fun _ => ?_
  refine hvalue.bind fun v => (same_csrValue env h).bind fun csrVal => ?_
  refine (same_setRd i csrVal).bind fun _ => ?_
  exact .ite (fun _ => same_lift _) fun _ => .pure fun _ _ hP => hP

end Csr

end Vcil.Iss
