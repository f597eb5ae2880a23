import Vcil.Iss.Effects

/-!
# The CSR instructions in one text

Six instructions, written twice each; here they are one computation with the instruction and the build
as parameters.

* `csrOperand`, `csrResult`: the operand, and the value that is written;
* `csrInstr`: the computation, `exec_csr`: the twelve texts are cases of it;
* `closes_exec`: a CSR instruction reads, and may end with a call of `set_csr_value`;
* `CsrWrite`, `exec_csr_ok`: how a CSR instruction returns.
-/

-- a case is a chain of ten calls, each an instance
set_option synthInstance.maxSize 512

namespace Vcil.Iss

open Fallible

variable {W α : Type}

instance (op : Opcode) : Decidable (IsCsr op) := inferInstanceAs (Decidable (_ ∨ _))

/-- The operand is a register. -/
def usesRs1 : Opcode → Bool
  | .csrrw | .csrrs | .csrrc => true
  | _ => false

/-- The operand: a register, or the immediate. -/
def csrOperand (i : Instruction) (h : Hart W) : Opcode → Word
  | .csrrw | .csrrs | .csrrc => h.regs i.rs1
  | _ => i.zimm.setWidth 32

/-- What the instruction writes, from the old value and the operand. -/
def csrResult (old operand : Word) : Opcode → Word
  | .csrrs | .csrrsi => old ||| operand
  | .csrrc | .csrrci => old &&& ~~~operand
  | _ => operand

section

variable (b : Build) (env : Env W) (i : Instruction)

/-- What the access check is told; two cases of one build always say that they write. -/
def csrChecked (op : Opcode) : Bool :=
  decide (WritesCsr i op) || b = .pipeline && (op = .csrrsi || op = .csrrci)

/-- How a build gets the operand. -/
def csrSource (op : Opcode) : PM W Word :=
  if usesRs1 op then
    match b with
    | .plain => lift (reg i.rs1)
    | .pipeline => read i.rs1
  else pure (i.zimm.setWidth 32)

/-- How a build reads the register. -/
def csrValue : PM W Word :=
  match b with
  | .plain => lift (csrValuePlain env i.csr)
  | .pipeline => csrValuePipeline env i.csr

/-- `rd` is written, unless it is register zero. -/
def setRd (v : Word) : PM W Unit :=
  match b with
  | .plain => lift (setRdPlain i v)
  | .pipeline => setRdPipeline i v

/-- The old value goes to `rd`, unless this is register zero. -/
def csrToRd : PM W Unit :=
  if i.rd ≠ 0 then do
    let v ← csrValue b env i
    setRd b i v
  else pure ()

/-- The CSR instructions of both builds. -/
def csrInstr (op : Opcode) : PM W Unit := do
  if ← lift (isInvalidCsrAccess i.csr (csrChecked b i op)) then lift raiseIllegalInstruction
  else do
    let v ← csrSource b i op
    if op = .csrrw ∨ op = .csrrwi then do
      csrToRd b env i
      lift (setCsrValue env i.csr v)
    else do
      let old ← csrValue b env i
      setRd b i old
      if WritesCsr i op then lift (setCsrValue env i.csr (csrResult old v op)) else pure ()

end

theorem lift_pure (a : α) : lift (pure a : M W α) = pure a := rfl

theorem lift_ite (c : Prop) [Decidable c] (m n : M W α) :
    lift (if c then m else n) = if c then lift m else lift n := by
  split <;> rfl

section Texts

variable (b : Build) (env : Env W) (i : Instruction) {op : Opcode}

theorem lift_csrToRdPlain : lift (csrToRdPlain env i) = csrToRd .plain env i := by
  unfold csrToRdPlain csrToRd csrValue setRd setRdPlain
  by_cases hrd : i.rd ≠ 0
  · simp only [if_pos hrd, lift_bind]
  · simp only [if_neg hrd, lift_pure]

theorem csrToRdPipeline_eq : csrToRdPipeline env i = csrToRd .pipeline env i := by
  unfold csrToRdPipeline csrToRd csrValue setRd setRdPipeline
  by_cases hrd : i.rd ≠ 0
  · simp only [if_pos hrd]
  · simp only [if_neg hrd]

theorem csrWritePlain_eq (value : M W Word) : lift (csrWritePlain env i value) = (do
    if ← lift (isInvalidCsrAccess i.csr true) then lift raiseIllegalInstruction
    else do
      let v ← lift value
      csrToRd .plain env i
      lift (setCsrValue env i.csr v)) := by
  unfold csrWritePlain
  simp only [lift_bind, lift_ite, lift_csrToRdPlain]

theorem csrChangePlain_eq (w : Bool) (value : M W Word) (f : Word → Word → Word) :
    lift (csrChangePlain env i w value f) = (do
      if ← lift (isInvalidCsrAccess i.csr w) then lift raiseIllegalInstruction
      else do
        let v ← lift value
        let old ← csrValue .plain env i
        setRd .plain i old
        if w then lift (setCsrValue env i.csr (f old v)) else pure ()) := by
  unfold csrChangePlain csrValue setRd
  simp only [lift_bind, lift_ite, lift_pure]

/-- The twelve texts. -/
theorem exec_csr (hop : IsCsr op) : exec env b i op = csrInstr b env i op := by
  cases b with
  | plain =>
    show lift (execPlain env i op) = _
    rcases hop with rfl | rfl | rfl | rfl | rfl | rfl
    all_goals
      simp only [execPlain, csrWritePlain_eq, csrChangePlain_eq]
      simp [csrInstr, csrSource, csrChecked, usesRs1, WritesCsr, csrResult, lift_pure]
  | pipeline =>
    show execPipeline env i op = _
    rcases hop with rfl | rfl | rfl | rfl | rfl | rfl
    all_goals
      simp only [execPipeline, csrWritePipeline, csrChangePipeline, csrToRdPipeline_eq]
      simp [csrInstr, csrSource, csrChecked, usesRs1, WritesCsr, csrResult, csrValue, setRd]

end Texts

/-! ### Writes -/

theorem isCsr_of_writes {i : Instruction} {op : Opcode} (hw : WritesCsr i op) : IsCsr op := by
  unfold WritesCsr at hw
  unfold IsCsr
  tauto

theorem csrChecked_of_writes (b : Build) {i : Instruction} {op : Opcode} (hw : WritesCsr i op) :
    csrChecked b i op = true := by
  unfold csrChecked
  rw [decide_eq_true hw, Bool.true_or]

/-- A call of `set_csr_value`. -/
def SetsCsr (env : Env W) (i : Instruction) (op : Opcode) (m : M W Unit) : Prop :=
  WritesCsr i op ∧ ∃ v, m = setCsrValue env i.csr v

/-- … in a computation that charges cycles. -/
def Lifted (L : M W α → Prop) (m : PM W α) : Prop := ∃ n, L n ∧ m = lift n

/-- An instruction that writes a CSR, from `h` to `h'`: what it reads, and the call of
`set_csr_value`, up to which `R` relates the states. -/
structure CsrWrite (R : Hart W → Hart W → Prop) (env : Env W) (i : Instruction) (op : Opcode)
    (old : Word) (h h₁ h' : Hart W) : Prop where
  access : invalidCsrAccess h i.csr true = false
  read : (op = .csrrw ∨ op = .csrrwi) ∨
    ∃ cycles h₂, getCsrValue env cycles i.csr h = .ok old h₂
  before : R h h₁
  call : setCsrValue env i.csr (csrResult old (csrOperand i h op) op) h₁ = .ok () h'

section Parts

variable {R : Hart W → Hart W → Prop} [IntegerFrame R] (b : Build) (env : Env W) (i : Instruction)
  {op : Opcode}

instance (op : Opcode) : Respects (OnHart R) (csrSource b i op : PM W Word) := by
  unfold csrSource
  cases b <;> infer_instance

instance (v : Word) : Respects (OnHart R) (setRd b i v : PM W Unit) := by
  unfold setRd setRdPlain setRdPipeline
  cases b <;> infer_instance

variable [CounterFrame R]

instance : Respects (OnHart R) (csrValue b env i) := by
  unfold csrValue csrValuePlain
  cases b <;> infer_instance

instance : Respects (OnHart R) (csrToRd b env i) := by
  unfold csrToRd
  infer_instance

/-- A CSR instruction changes what a read can change, up to the call of `set_csr_value` it may end
with. -/
theorem closes_exec (hop : IsCsr op) :
    Closes (OnHart R) (Lifted (SetsCsr env i op)) (exec env b i op) := by
  have hset (hw : WritesCsr i op) (v : Word) :
      Closes (OnHart R) (Lifted (SetsCsr env i op)) (lift (setCsrValue env i.csr v)) :=
    .last ⟨_, ⟨hw, v, rfl⟩, rfl⟩
  rw [exec_csr b env i hop]
  unfold csrInstr
  refine .bind fun _ => .ite (fun _ => .of_respects) fun _ => .bind fun v => .ite (fun hw => ?_)
    fun _ => ?_
  · have hwrites : WritesCsr i op := hw.imp_right .inl
    exact .bind fun _ => hset hwrites v
  · exact .bind fun old => .bind fun _ => .ite (fun hw => hset hw _) fun _ => .of_respects

end Parts

section Returns

variable {R : Hart W → Hart W → Prop} [IntegerFrame R] [CounterFrame R] {b : Build} {env : Env W}
  {i : Instruction} {op : Opcode}

theorem isInvalidCsrAccess_ok {addr : CsrAddr} {isWrite r : Bool} {h h' : Hart W}
    (hr : isInvalidCsrAccess addr isWrite h = .ok r h') :
    r = invalidCsrAccess h addr isWrite ∧ h' = h := by
  obtain ⟨_, h₀, hcheck, hreturn⟩ := bind_eq_ok.1 hr
  obtain ⟨-, hsame⟩ := illegalIf_ok hcheck
  cases hreturn
  exact ⟨hsame ▸ rfl, hsame⟩

theorem csrSource_ok {v : Word} {t t' : TimedHart W} (hr : csrSource b i op t = .ok v t') :
    v = csrOperand i t.hart op ∧ t'.hart = t.hart := by
  have hreg (hr : (match b with | .plain => lift (reg i.rs1) | .pipeline => read i.rs1) t = .ok v t') :
      v = t.hart.regs i.rs1 ∧ t'.hart = t.hart := by
    cases b with
    | plain =>
      cases hr
      exact ⟨rfl, rfl⟩
    | pipeline => exact read_hart hr
  unfold csrSource at hr
  cases op
  case csrrw => exact hreg hr
  case csrrs => exact hreg hr
  case csrrc => exact hreg hr
  all_goals
    cases hr
    exact ⟨rfl, rfl⟩

theorem csrValue_ok {v : Word} {t t' : TimedHart W} (hr : csrValue b env i t = .ok v t') :
    ∃ cycles, getCsrValue env cycles i.csr t.hart = .ok v t'.hart := by
  cases b with
  | plain =>
    obtain ⟨h', hget, rfl⟩ := lift_ok hr
    exact ⟨_, hget⟩
  | pipeline =>
    obtain ⟨h', hget, rfl⟩ := lift_ok hr
    exact ⟨_, hget⟩

/-- A CSR instruction that returns has read, or has read and called `set_csr_value`. -/
theorem exec_csr_ok {t t' : TimedHart W} (hop : IsCsr op) (hr : exec env b i op t = .ok () t') :
    (¬WritesCsr i op ∧ R t.hart t'.hart) ∨
      (WritesCsr i op ∧ ∃ old h₁, CsrWrite R env i op old t.hart h₁ t'.hart) := by
  by_cases hw : WritesCsr i op
  · refine .inr ⟨hw, ?_⟩
    rw [exec_csr b env i hop] at hr
    obtain ⟨invalid, t₀, hcheck, hr⟩ := bind_eq_ok.1 hr
    obtain ⟨h₀, hlifted, rfl⟩ := lift_ok hcheck
    obtain ⟨hinvalid, rfl⟩ := isInvalidCsrAccess_ok hlifted
    rw [csrChecked_of_writes b hw] at hinvalid
    cases invalid with
    | true => cases hr
    | false =>
      obtain ⟨v, t₁, hsource, hr⟩ := bind_eq_ok.1 hr
      obtain ⟨rfl, hsame⟩ := csrSource_ok hsource
      split_ifs at hr with hwrite
      · obtain ⟨_, t₂, hrd, hset⟩ := bind_eq_ok.1 hr
        obtain ⟨h', hcall, rfl⟩ := lift_ok hset
        have hbefore : R t₁.hart t₂.hart := Respects.ok (R := OnHart R) hrd
        refine ⟨0, t₂.hart, hinvalid.symm, .inl hwrite, hsame ▸ hbefore, ?_⟩
        rcases hwrite with rfl | rfl <;> exact hcall
      · obtain ⟨old, t₂, hget, hr⟩ := bind_eq_ok.1 hr
        obtain ⟨_, t₃, hrd, hset⟩ := bind_eq_ok.1 hr
        obtain ⟨h', hcall, rfl⟩ := lift_ok hset
        obtain ⟨cycles, hvalue⟩ := csrValue_ok hget
        have hread : R t₁.hart t₂.hart := Respects.ok (R := OnHart R) hget
        have hbefore : R t₂.hart t₃.hart := Respects.ok (R := OnHart R) hrd
        exact ⟨old, t₃.hart, hinvalid.symm, .inr ⟨cycles, t₂.hart, hsame ▸ hvalue⟩,
          hsame ▸ trans_of R hread hbefore, hcall⟩
  · rcases (closes_exec (R := R) b env i hop).rel t with hkept | ⟨_, _, ⟨_, ⟨hwrites, -⟩, -⟩, -⟩
    · rw [hr] at hkept
      exact .inl ⟨hw, hkept⟩
    · exact absurd hwrites hw

end Returns

end Vcil.Iss
