import Vcil.Iss.BareMetal
import Vcil.Iss.Reachable
import Vcil.Iss.Texts

/-!
# Result hazards

Whether an instruction waits for the results it uses: at each use of an integer register no latency of
that register is pending in the pipeline timing model.

* `ReachablePipeline`: what the timing model can be in at any moment of a run;
* `HazardsHonoured`: the uses of a text that does not trap, from one state;
* `safe_read_first`, `safe_read_second`: after `read` the register has no entry, and keeps none
  while another one is read;
* `honours_text`: the texts other than `JALR`, with the timing model reachable throughout;
* `untrapped_jalr_iff`: `JALR` traps if its target is no instruction address;
* `hazardsHonoured_iff`: otherwise it honours the hazard exactly when its base register has no
  entry.
-/

-- a text is a chain of ten steps, each an instance
set_option synthInstance.maxSize 512

namespace Vcil.Iss

open Fallible
open Timing (BranchPredictor Call Pipeline)

variable {W α : Type}

/-! ### Reachable pipelines -/

/-- A pipeline of a run of the simulator, or what any further calls and AMOs make of it. -/
inductive ReachablePipeline (env : Env W) : Pipeline → Prop
  | run {b : Build} {t : TimedHart W} (h : Reachable env b t) : ReachablePipeline env t.pipeline
  | call {p p' : Pipeline} (h : ReachablePipeline env p) {c : Call} (hc : c.Legal)
      (hp : p.call c = some p') : ReachablePipeline env p'
  | amo {p : Pipeline} (h : ReachablePipeline env p) (i : Instruction) :
      ReachablePipeline env (env.amoCharge i p)

theorem ReachablePipeline.valid {env : Env W} (hamo : env.AmoValid) {p : Pipeline}
    (h : ReachablePipeline env p) : p.Valid := by
  induction h with
  | run h => exact h.valid hamo
  | call _ hc hp ih => exact ih.call hc hp
  | amo _ i ih => exact hamo i _ ih

def KeepsReachable (env : Env W) (t t' : TimedHart W) : Prop :=
  ReachablePipeline env t.pipeline → ReachablePipeline env t'.pipeline

instance (env : Env W) : TimedFrame AnyHart (KeepsReachable env) where
  refl _ := id
  trans _ _ _ h₁ h₂ := h₂ ∘ h₁
  hart _ _ _ := id
  call _ _ _ hc hp h := h.call hc hp

/-! ### Texts -/

/-- The timing model is in a reachable state. -/
def Runs (env : Env W) (s : PredictedHart W) : Prop := ReachablePipeline env s.timed.pipeline

/-- The register has no entry. -/
def Unpending (r : RegIdx) (s : PredictedHart W) : Prop := s.timed.pipeline.find r.toNat = false

/-- The text raises no trap. -/
def Untrapped (t : Text W Unit) (s : PredictedHart W) : Prop :=
  ∀ e s', t.run s ≠ .error (.trap e) s'

/-- Unless the text traps, each use of a register finds its result there. -/
def HazardsHonoured (t : Text W Unit) (s : PredictedHart W) : Prop :=
  Untrapped t s → ∀ u ∈ t.uses s, Unpending u.1 u.2

/-- Each use of a register finds its result there, from all reachable states. -/
abbrev Honours (env : Env W) (t : Text W α) : Prop := Guarded (Runs env) Unpending t

section

variable {env : Env W}

instance (m : PM W α) [hm : Made (Timed env (Part env)) m] : Respects (KeepsReachable env) m :=
  hm.respects fun h => h.respects respects_part fun i _ hr => hr.amo i

instance (i : Instruction) : Respects (KeepsReachable env) (csrToRdPipeline env i) := by
  unfold csrToRdPipeline
  infer_instance

instance (i : Instruction) (v : Word) :
    Respects (KeepsReachable env) (setRdPipeline i v : PM W Unit) := by
  unfold setRdPipeline
  infer_instance

instance (m : PM W α) [Blind registers (onTimed m)] [hm : Respects (KeepsReachable env) m] :
    Honours env (Text.step m) := by
  refine ⟨.step inferInstance fun s a s' hs hr => ?_⟩
  obtain ⟨t, hrun, rfl⟩ := onTimed_ok hr
  exact hm.ok hrun hs

variable (hamo : env.AmoValid)

include hamo

theorem honours_predictFrom {call : BranchPredictor → Pipeline → BitVec 64 → BitVec 64 →
      Option (BranchPredictor × Pipeline)}
    (hcall : ∀ b p lastPc pc, p.Valid → BranchPredictor.Charges p (call b p lastPc pc)) :
    Honours env (Text.predictFrom call) := by
  have hpredict (lastPc pc : BitVec 64) : Honours env
      (Script.step (predict fun b p => call b p lastPc pc) inferInstance : Text W Unit) := by
    refine ⟨.step inferInstance fun s a s' hs hr => ?_⟩
    obtain ⟨b, p, hp, hkept⟩ := hcall s.branchPredictor s.timed.pipeline lastPc pc (hs.valid hamo)
    rw [predict_of_some hp] at hr
    cases hr
    rcases hkept with rfl | hadvance
    · exact hs
    · exact ReachablePipeline.call hs (c := .advance _) (show (0 : ℤ) < 3 by decide) hadvance
  unfold Text.predictFrom
  infer_instance

omit hamo in
theorem safe_read {I J : PredictedHart W → Prop} {r : RegIdx}
    (haccess : ∀ s, I s → ∃ p, s.timed.pipeline.accessRegister r.toNat = some p ∧
      J ⟨{ s.timed with pipeline := p }, s.branchPredictor⟩)
    (hready : ∀ s, J s → s.timed.pipeline.ReadyAt r.toNat) :
    (Text.read r : Text W Word).Safe I J Unpending := by
  refine .bind (J := J) (.step inferInstance fun s a s' hs hr => ?_)
    fun _ => .use fun s hs => (hready s hs).find
  obtain ⟨p, hp, hJ⟩ := haccess s hs
  have hcharge : accessRegister r s.timed = .ok () { s.timed with pipeline := p } :=
    charge_of_some hp
  rw [onTimed_of_ok hcharge] at hr
  cases hr
  exact hJ

/-- After `read` the register is ready. -/
theorem safe_read_first (r : RegIdx) : (Text.read r : Text W Word).Safe (Runs env)
    (fun s => Runs env s ∧ s.timed.pipeline.ReadyAt r.toNat) Unpending := by
  refine safe_read (fun s hs => ?_) fun _ => And.right
  obtain ⟨p, hp, hready⟩ := (hs.valid hamo).accessRegister r.toNat
  exact ⟨p, hp, hs.call (c := .accessRegister r.toNat) trivial hp, hready⟩

omit hamo in
/-- … and stays ready while another one is read. -/
theorem safe_read_second (r r' : RegIdx) : (Text.read r' : Text W Word).Safe
    (fun s => Runs env s ∧ s.timed.pipeline.ReadyAt r.toNat)
    (fun s => Runs env s ∧ s.timed.pipeline.ReadyAt r.toNat ∧ s.timed.pipeline.ReadyAt r'.toNat)
    Unpending := by
  refine safe_read (fun s hs => ?_) fun _ hs => hs.2.2
  obtain ⟨p, hp, hready⟩ := hs.2.accessRegister r'.toNat
  exact ⟨p, hp, hs.1.call (c := .accessRegister r'.toNat) trivial hp, hready⟩

theorem honours_read (r : RegIdx) : Honours env (Text.read r : Text W Word) :=
  ⟨(safe_read_first hamo r).weaken (fun _ => id) fun _ => And.left⟩

/-! ### The instructions -/

/-- The two registers that `MULHSU` uses once more are ready. -/
theorem honours_mulhsu (i : Instruction) : Honours env (Text.mulhsu i : Text W Unit) := by
  have huse (r : RegIdx) {I : PredictedHart W → Prop}
      (h : ∀ s, I s → s.timed.pipeline.ReadyAt r.toNat) :
      (Script.use r : Text W Word).Safe I I Unpending := .use fun s hs => (h s hs).find
  have hrest (a b x y : Word) : Honours env (do
      Text.step (write i.rd (mulhsuResult x y))
      Text.step (charge fun p => p.doMult i.rd.toNat a b) : Text W Unit) := inferInstance
  refine ⟨.bind (Guarded.safe (I := Runs env)) fun _ => .bind (safe_read_first hamo i.rs1) fun a =>
    .bind (safe_read_second i.rs1 i.rs2) fun b => .bind (huse i.rs1 fun s hs => hs.2.1) fun x =>
    .bind (huse i.rs2 fun s hs => hs.2.2) fun y => ?_⟩
  exact (hrest a b x y).safe.weaken (fun _ => And.left) fun _ => id

theorem honours_predictBranch (branchTiming branchTaken : Bool) :
    Honours env (Text.predictBranch branchTiming branchTaken : Text W Unit) := by
  have hpredict := honours_predictFrom hamo fun b p lastPc pc hp =>
    BranchPredictor.charges_updateBranchPrediction b hp lastPc pc branchTaken
  unfold Text.predictBranch
  infer_instance

theorem honours_jal (branchTiming : Bool) (i : Instruction) :
    Honours env (Text.jal env branchTiming i) := by
  have hcall (link : BitVec 64) := honours_predictFrom hamo fun b p lastPc pc hp =>
    BranchPredictor.charges_doCall b hp lastPc pc link
  have hjump (link : BitVec 64) := honours_predictFrom hamo fun b p lastPc pc hp =>
    BranchPredictor.charges_doJump b hp lastPc pc link
  unfold Text.jal
  infer_instance

omit hamo in
/-- `JALR` uses its base register, and that before any call of the timing model. -/
theorem uses_jalr (branchTiming : Bool) (i : Instruction) (s : PredictedHart W) :
    (Text.jalr env branchTiming i).uses s = [(i.rs1, s)] := by
  have hpc : (Text.step (lift getPc)).run s = .ok s.timed.hart.pc s := rfl
  have huse : (Script.use i.rs1 : Text W Word).run s = .ok (s.timed.hart.regs i.rs1) s := rfl
  have hstep (m : PM W Unit) [Blind registers (onTimed m)] : OnlySteps (Text.step m) := by
    unfold Text.step
    infer_instance
  have hpredict (call : BranchPredictor → Pipeline → BitVec 64 → BitVec 64 →
      Option (BranchPredictor × Pipeline)) : OnlySteps (Text.predictFrom call : Text W Unit) := by
    unfold Text.predictFrom Text.step
    infer_instance
  unfold Text.jalr
  rw [Script.uses_bind_of_ok _ hpc, Script.uses_bind_of_ok _ huse]
  refine congrArg ([(i.rs1, s)] ++ ·) (OnlySteps.uses_eq_nil ?_ s)
  infer_instance

omit hamo in
/-- The timing model and the predictor raise no trap. -/
theorem avoids_predictFrom (call : BranchPredictor → Pipeline → BitVec 64 → BitVec 64 →
    Option (BranchPredictor × Pipeline)) :
    Avoids IsTrap (Text.predictFrom call : Text W Unit).run := by
  intro s e s' hr
  unfold Text.predictFrom at hr
  rcases bind_eq_error.1 hr with hlast | ⟨lastPc, s₁, -, hr⟩
  · cases hlast
  rcases bind_eq_error.1 hr with hpc | ⟨pc, s₂, -, hr⟩
  · cases hpc
  change predict _ s₂ = _ at hr
  unfold predict at hr
  split at hr
  · cases hr
  · cases hr
    exact not_isTrap_assertion

omit hamo in
theorem avoids_write (r : RegIdx) (v : Word) :
    Avoids IsTrap (Text.step (write r v) : Text W Unit).run := by
  intro s e s' hr
  change onTimed (write r v) s = _ at hr
  cases hwrite : write r v s.timed with
  | ok _ t =>
    rw [onTimed_of_ok hwrite] at hr
    cases hr
  | error e' t =>
    rw [onTimed_of_error hwrite] at hr
    cases hr
    rcases bind_eq_error.1 hwrite with hcharge | ⟨_, t₁, -, hset⟩
    · rw [(charge_error hcharge).1]
      exact not_isTrap_assertion
    · cases hset

/-- Where `JALR` jumps to. -/
def jumpTarget (i : Instruction) (h : Hart W) : Word := (h.regs i.rs1 + i.iImm) &&& ~~~1

omit hamo in
/-- `JALR` traps only if its target is no instruction address. -/
theorem untrapped_jalr_iff (branchTiming : Bool) (i : Instruction) (s : PredictedHart W) :
    Untrapped (Text.jalr env branchTiming i) s ↔
      env.trapCheckPcAlignment s.timed.hart.csrs.misa (jumpTarget i s.timed.hart) = none := by
  obtain ⟨s₁, hs₁⟩ : ∃ s₁ : PredictedHart W, s₁ = { s with timed := { s.timed with
      hart := { s.timed.hart with pc := jumpTarget i s.timed.hart } } } := ⟨_, rfl⟩
  have hpc : (Text.step (lift getPc)).run s = .ok s.timed.hart.pc s := rfl
  have huse : (Script.use i.rs1 : Text W Word).run s = .ok (s.timed.hart.regs i.rs1) s := rfl
  have hset : (Text.step (lift (setPc ((s.timed.hart.regs i.rs1 + i.iImm) &&& ~~~1)))).run s =
      .ok () s₁ := by
    rw [hs₁]
    rfl
  have hcheck : (Text.step (lift (trapCheckPcAlignment env))).run s₁ = onTimed (lift (raiseIfSome
      (env.trapCheckPcAlignment s.timed.hart.csrs.misa (jumpTarget i s.timed.hart)))) s₁ := by
    rw [hs₁]
    rfl
  unfold Untrapped Text.jalr
  simp only [Script.run_bind]
  rw [bind_of_ok hpc, bind_of_ok huse, bind_of_ok hset]
  cases hc : env.trapCheckPcAlignment s.timed.hart.csrs.misa (jumpTarget i s.timed.hart) with
  | some e =>
    rw [hc] at hcheck
    have htrap := hcheck.trans (show _ = .error (.trap e) s₁ from rfl)
    exact iff_of_false (fun hno => hno e s₁ (bind_of_error htrap)) (by simp)
  | none =>
    rw [hc] at hcheck
    have haligned := hcheck.trans (show _ = .ok () s₁ from rfl)
    refine iff_of_true (fun e s' hr => ?_) rfl
    rw [bind_of_ok haligned] at hr
    rcases bind_eq_error.1 hr with hwrite | ⟨_, s₂, -, hr⟩
    · exact avoids_write i.rd _ _ _ _ hwrite ⟨e, rfl⟩
    · simp only [Script.run_ite] at hr
      split_ifs at hr
      · exact avoids_predictFrom _ _ _ _ hr ⟨e, rfl⟩
      · exact avoids_predictFrom _ _ _ _ hr ⟨e, rfl⟩
      · exact avoids_predictFrom _ _ _ _ hr ⟨e, rfl⟩
      · cases hr

/-- The texts other than `JALR` honour every hazard. -/
theorem honours_text {branchTiming : Bool} {i : Instruction} {op : Opcode} {t : Text W Unit}
    (ht : text env branchTiming i op = some t) (hop : op ≠ .jalr) : Honours env t := by
  have hread (r : RegIdx) : Honours env (Text.read r : Text W Word) := honours_read hamo r
  have hshamt (r : RegIdx) : Honours env (Text.shamt r : Text W ℕ) := by
    unfold Text.shamt
    infer_instance
  have hbranch (taken : Bool) : Honours env (Text.predictBranch branchTiming taken : Text W Unit) :=
    honours_predictBranch hamo branchTiming taken
  cases op with
  | addi | slti | sltiu | xori | ori | andi =>
    cases ht
    unfold Text.opImm
    infer_instance
  | add | sub | slt | sltu | xor | or | and =>
    cases ht
    unfold Text.op
    infer_instance
  | sll | srl | sra =>
    cases ht
    unfold Text.shift
    infer_instance
  | slli | srli | srai =>
    cases ht
    unfold Text.shiftImm
    infer_instance
  | lui =>
    cases ht
    unfold Text.lui
    infer_instance
  | auipc =>
    cases ht
    unfold Text.auipc
    infer_instance
  | jal =>
    cases ht
    exact honours_jal hamo branchTiming i
  | jalr => exact absurd rfl hop
  | sb | sh | sw =>
    cases ht
    unfold Text.store
    infer_instance
  | lb | lh | lw | lbu | lhu =>
    cases ht
    unfold Text.load
    infer_instance
  | beq | bne | blt | bge | bltu | bgeu =>
    cases ht
    unfold Text.branch
    infer_instance
  | fence | fenceI =>
    cases ht
    infer_instance
  | ecall =>
    simp only [text] at ht
    split at ht
    next =>
      cases ht
      infer_instance
    next => cases ht
  | ebreak =>
    cases ht
    infer_instance
  | csrrw | csrrwi =>
    cases ht
    unfold Text.csrWrite
    infer_instance
  | csrrs | csrrc | csrrsi | csrrci =>
    cases ht
    unfold Text.csrChange
    infer_instance
  | mul | mulh | mulhu =>
    cases ht
    unfold Text.mul
    infer_instance
  | mulhsu =>
    cases ht
    exact honours_mulhsu hamo i
  | div | divu | rem | remu =>
    cases ht
    unfold Text.div
    infer_instance
  | _ => cases ht

/-- An integer instruction that does not trap honours the result hazards, with and without
`BRANCH_TIMING`, unless it is a `JALR` whose base register has an entry. -/
theorem hazardsHonoured_iff {branchTiming : Bool} {i : Instruction} {op : Opcode} {t : Text W Unit}
    (ht : text env branchTiming i op = some t) {s : PredictedHart W}
    (hreach : ReachablePipeline env s.timed.pipeline) :
    HazardsHonoured t s ↔ (op = .jalr →
      env.trapCheckPcAlignment s.timed.hart.csrs.misa (jumpTarget i s.timed.hart) = none →
        s.timed.pipeline.find i.rs1.toNat = false) := by
  by_cases hop : op = .jalr
  · subst hop
    cases ht
    simp only [HazardsHonoured, untrapped_jalr_iff, uses_jalr, List.forall_mem_singleton,
      true_imp_iff]
    rfl
  · exact iff_of_true (fun _ => (honours_text hamo ht hop).safe.uses s hreach) fun h => absurd h hop

end

/-- The bare platform with the decoding of `LW` and `JALR`. -/
def Env.loading : Env BareMemory :=
  { Env.bare with
    decodeNormal := fun i =>
      if i.data.extractLsb' 0 7 = 0b0000011 ∧ i.funct3 = 0b010 then .lw
      else if i.data.extractLsb' 0 7 = 0b1100111 ∧ i.funct3 = 0 then .jalr
      else bareDecode i }

/-- `LW x5, 64(x0)` and `JALR x1, 0(x5)`, with a jump to 256. -/
def loadAndJump : BareMemory := fun addr =>
  if addr = 0 then 0x04002283 else if addr = 4 then 0x000280E7 else if addr = 64 then 256 else 0

/-- Before the load. -/
def beforeLoad : TimedHart BareMemory where
  hart := .reset machineMode 0 0 loadAndJump
  pipeline := .empty 0

/-- Nothing is pending at first, so that the jump may come first. -/
theorem jalr_honoured : HazardsHonoured (Text.jalr Env.loading true (.ofWord 0x000280E7))
    ⟨beforeLoad, .init⟩ := by
  have htext : text Env.loading true (.ofWord 0x000280E7) .jalr =
      some (Text.jalr Env.loading true (.ofWord 0x000280E7)) := rfl
  have hreach : ReachablePipeline Env.loading beforeLoad.pipeline :=
    .run (b := .pipeline) (.start beforeLoad.hart 0)
  exact (hazardsHonoured_iff (fun _ _ hp => hp) htext (s := ⟨beforeLoad, .init⟩) hreach).2
    fun _ _ => rfl

/-- After the load. -/
def afterLoad : TimedHart BareMemory := final (runStep Env.loading .pipeline beforeLoad)

/-- The jump is fetched. -/
def fetchedJump : PredictedHart BareMemory where
  timed := { afterLoad with
    hart := { afterLoad.hart with pc := 8, op := .jalr, instr := .ofWord 0x000280E7 } }
  branchPredictor := .init

/-- After the load the value of `x5` is pending, and the jump uses it. -/
theorem not_hazardsHonoured_jalr : Reachable Env.loading .pipeline afterLoad ∧
    fetch Env.loading afterLoad.hart = .ok () fetchedJump.timed.hart ∧
    ∀ branchTiming, ∃ t,
      text Env.loading branchTiming (.ofWord 0x000280E7) .jalr = some t ∧
      (∃ s, t.run fetchedJump = .ok () s) ∧ ¬HazardsHonoured t fetchedJump := by
  refine ⟨.step (.start _ _), rfl, fun branchTiming => ⟨_, rfl, ?_, fun hall => ?_⟩⟩
  · cases branchTiming <;> exact ⟨_, rfl⟩
  · have hused := hall ((untrapped_jalr_iff branchTiming _ fetchedJump).2 rfl) (5, fetchedJump)
      (by rw [uses_jalr]; exact List.mem_singleton.2 rfl)
    have hpending : fetchedJump.timed.pipeline.find 5 = true := by decide +kernel
    exact Bool.noConfusion (hused.symm.trans hpending)

end Vcil.Iss
