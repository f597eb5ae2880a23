import Mathlib.Algebra.Order.Ring.Abs
import Vcil.Iss.BareMetal
import Vcil.Iss.BuildsAgree

/-!
# Multiplication and division

The eight cases of RV32M against integer arithmetic.

* `int64Mul`, `int32Div`, `int32Rem`, `uint32Div`, `uint32Rem`: the operators of C++, undefined where
  a quotient does not exist or a result does not fit;
* `rv32mCase`: what a case computes with them, under the guards it has;
* `exactResult`: the result in the integers;
* `rv32mCase_eq`: a case evaluates no undefined operator, and its value is exact;
* `rv32m_exact`: both builds write that value.
-/

namespace Vcil.Iss

open Fallible

variable {W : Type}

/-! ### The operators -/

/-- `a * b` on `int64_t`. -/
def int64Mul (a b : BitVec 64) : Option (BitVec 64) :=
  if -2 ^ 63 ≤ a.toInt * b.toInt ∧ a.toInt * b.toInt < 2 ^ 63 then some (a * b) else none

/-- The pairs on which `/` and `%` are undefined on `int32_t`. -/
def UndefinedQuotient (a b : Word) : Prop := b = 0 ∨ (a = regMin ∧ b = -1)

instance (a b : Word) : Decidable (UndefinedQuotient a b) :=
  inferInstanceAs (Decidable (_ ∨ _))

/-- `a / b` on `int32_t`. -/
def int32Div (a b : Word) : Option Word := if UndefinedQuotient a b then none else some (a.sdiv b)

/-- `a % b` on `int32_t`. -/
def int32Rem (a b : Word) : Option Word := if UndefinedQuotient a b then none else some (a.srem b)

/-- `a / b` on `uint32_t`. -/
def uint32Div (a b : Word) : Option Word := if b = 0 then none else some (a / b)

/-- `a % b` on `uint32_t`. -/
def uint32Rem (a b : Word) : Option Word := if b = 0 then none else some (a % b)

/-! ### The cases -/

def IsRv32m : Opcode → Prop
  | .mul | .mulh | .mulhu | .mulhsu | .div | .divu | .rem | .remu => True
  | _ => False

/-- The value that a case writes. -/
def rv32mCase (op : Opcode) (a b : Word) : Option Word :=
  match op with
  | .mul => do
      let ans ← int64Mul (a.signExtend 64) (b.signExtend 64)
      return (ans &&& 0xFFFFFFFF).setWidth 32
  | .mulh => do
      let ans ← int64Mul (a.signExtend 64) (b.signExtend 64)
      return upperHalf ans
  | .mulhu => some (upperHalf (a.setWidth 64 * b.setWidth 64))
  -- the signed factor is converted to `uint64_t`
  | .mulhsu => some (upperHalf (a.signExtend 64 * b.setWidth 64))
  | .div =>
      if b = 0 then some (-1) else if a = regMin ∧ b = -1 then some a else int32Div a b
  | .divu => if b = 0 then some (-1) else uint32Div a b
  | .rem =>
      if b = 0 then some a else if a = regMin ∧ b = -1 then some 0 else int32Rem a b
  | .remu => if b = 0 then some a else uint32Rem a b
  | _ => none

/-- The result in the integers, with the values of the standard for a zero divisor. -/
def exactResult (op : Opcode) (a b : Word) : Word :=
  match op with
  | .mul => BitVec.ofInt 32 (a.toInt * b.toInt)
  | .mulh => BitVec.ofInt 32 (a.toInt * b.toInt / 2 ^ 32)
  | .mulhu => BitVec.ofInt 32 (a.toNat * b.toNat / 2 ^ 32)
  | .mulhsu => BitVec.ofInt 32 (a.toInt * b.toNat / 2 ^ 32)
  | .div => if b = 0 then BitVec.allOnes 32 else BitVec.ofInt 32 (a.toInt.tdiv b.toInt)
  | .divu => if b = 0 then BitVec.allOnes 32 else BitVec.ofNat 32 (a.toNat / b.toNat)
  | .rem => if b = 0 then a else BitVec.ofInt 32 (a.toInt.tmod b.toInt)
  | .remu => if b = 0 then a else BitVec.ofNat 32 (a.toNat % b.toNat)
  | _ => 0

/-! ### Products -/

section Products

variable (a b : Word)

theorem signExtend_eq_ofInt : a.signExtend 64 = BitVec.ofInt 64 a.toInt := rfl

theorem setWidth_eq_ofInt : a.setWidth 64 = BitVec.ofInt 64 a.toNat := by
  rw [BitVec.ofInt_natCast]
  apply BitVec.eq_of_toNat_eq
  rw [BitVec.toNat_setWidth, BitVec.toNat_ofNat]

theorem lowerHalf_ofInt (x : ℤ) :
    (BitVec.ofInt 64 x &&& 0xFFFFFFFF).setWidth 32 = BitVec.ofInt 32 x := by
  have hmask : (0xFFFFFFFF : BitVec 64).setWidth 32 = BitVec.allOnes 32 := by decide
  rw [BitVec.setWidth_and, hmask, BitVec.and_allOnes]
  apply BitVec.eq_of_toNat_eq
  rw [BitVec.toNat_setWidth, BitVec.toNat_ofInt, BitVec.toNat_ofInt]
  omega

theorem upperHalf_ofInt (x : ℤ) : upperHalf (BitVec.ofInt 64 x) = BitVec.ofInt 32 (x / 2 ^ 32) := by
  have hmask : ((0xFFFFFFFF00000000 : BitVec 64) >>> 32).setWidth 32 = BitVec.allOnes 32 := by decide
  rw [upperHalf, BitVec.ushiftRight_and_distrib, BitVec.setWidth_and, hmask, BitVec.and_allOnes]
  apply BitVec.eq_of_toNat_eq
  rw [BitVec.toNat_setWidth, BitVec.toNat_ushiftRight, BitVec.toNat_ofInt, BitVec.toNat_ofInt,
    Nat.shiftRight_eq_div_pow]
  omega

/-- The product of two `int32_t` fits into an `int64_t`. -/
theorem int64Mul_signExtend :
    int64Mul (a.signExtend 64) (b.signExtend 64) = some (BitVec.ofInt 64 (a.toInt * b.toInt)) := by
  have ha : -2 ^ 31 ≤ a.toInt ∧ a.toInt < 2 ^ 31 := ⟨a.le_toInt, a.toInt_lt⟩
  have hb : -2 ^ 31 ≤ b.toInt ∧ b.toInt < 2 ^ 31 := ⟨b.le_toInt, b.toInt_lt⟩
  have hle : |a.toInt * b.toInt| ≤ 2 ^ 31 * 2 ^ 31 := by
    rw [abs_mul]
    have ha' : |a.toInt| ≤ 2 ^ 31 := abs_le.2 ⟨ha.1, ha.2.le⟩
    have hb' : |b.toInt| ≤ 2 ^ 31 := abs_le.2 ⟨hb.1, hb.2.le⟩
    exact mul_le_mul ha' hb' (abs_nonneg _) (by decide)
  obtain ⟨hlo, hhi⟩ := abs_le.1 hle
  rw [int64Mul, BitVec.toInt_signExtend_of_le (by decide),
    BitVec.toInt_signExtend_of_le (by decide), if_pos ⟨by omega, by omega⟩, signExtend_eq_ofInt, signExtend_eq_ofInt, BitVec.ofInt_mul]

end Products

/-! ### Quotients -/

section Quotients

variable {a b : Word}

theorem int32Div_eq (h : ¬UndefinedQuotient a b) :
    int32Div a b = some (BitVec.ofInt 32 (a.toInt.tdiv b.toInt)) := by
  rw [int32Div, if_neg h]
  refine congrArg some (BitVec.eq_of_toInt_eq ?_)
  rw [BitVec.toInt_sdiv, BitVec.toInt_ofInt]

theorem int32Rem_eq (h : ¬UndefinedQuotient a b) :
    int32Rem a b = some (BitVec.ofInt 32 (a.toInt.tmod b.toInt)) := by
  rw [int32Rem, if_neg h, ← BitVec.toInt_srem, BitVec.ofInt_toInt]

theorem uint32Div_eq (h : b ≠ 0) : uint32Div a b = some (BitVec.ofNat 32 (a.toNat / b.toNat)) := by
  rw [uint32Div, if_neg h, ← BitVec.toNat_udiv, BitVec.ofNat_toNat, BitVec.setWidth_eq]

theorem uint32Rem_eq (h : b ≠ 0) : uint32Rem a b = some (BitVec.ofNat 32 (a.toNat % b.toNat)) := by
  rw [uint32Rem, if_neg h, ← BitVec.toNat_umod, BitVec.ofNat_toNat, BitVec.setWidth_eq]

end Quotients

/-! ### The eight cases -/

/-- No case evaluates an undefined operator, and each computes the exact result. -/
theorem rv32mCase_eq {op : Opcode} (hop : IsRv32m op) (a b : Word) :
    rv32mCase op a b = some (exactResult op a b) := by
  cases op with
  | mul =>
    rw [rv32mCase, int64Mul_signExtend]
    exact congrArg some (lowerHalf_ofInt _)
  | mulh =>
    rw [rv32mCase, int64Mul_signExtend]
    exact congrArg some (upperHalf_ofInt _)
  | mulhu =>
    rw [rv32mCase, setWidth_eq_ofInt, setWidth_eq_ofInt, ← BitVec.ofInt_mul, upperHalf_ofInt,
      exactResult]
  | mulhsu =>
    rw [rv32mCase, signExtend_eq_ofInt, setWidth_eq_ofInt, ← BitVec.ofInt_mul, upperHalf_ofInt,
      exactResult]
  | div =>
    simp only [rv32mCase, exactResult]
    split_ifs with hzero hmin
    · rfl
    · rw [hmin.1, hmin.2]
      decide
    · exact int32Div_eq (not_or.2 ⟨hzero, hmin⟩)
  | divu =>
    simp only [rv32mCase, exactResult]
    split_ifs with hzero
    · rfl
    · exact uint32Div_eq hzero
  | rem =>
    simp only [rv32mCase, exactResult]
    split_ifs with hzero hmin
    · rfl
    · rw [hmin.1, hmin.2]
      decide
    · exact int32Rem_eq (not_or.2 ⟨hzero, hmin⟩)
  | remu =>
    simp only [rv32mCase, exactResult]
    split_ifs with hzero
    · rfl
    · exact uint32Rem_eq hzero
  | _ => cases hop

/-! ### Both builds -/

section Builds

variable (env : Env W) (i : Instruction)

/-- The text of a case, and the value it writes. -/
theorem execPlain_rv32m {op : Opcode} (hop : IsRv32m op) : ∃ f, execPlain env i op = mulPlain i f ∧
    ∀ a b, rv32mCase op a b = some (f a b) := by
  cases op with
  | mul =>
    refine ⟨mulResult, rfl, fun a b => ?_⟩
    rw [rv32mCase, int64Mul_signExtend, BitVec.ofInt_mul]
    rfl
  | mulh =>
    refine ⟨mulhResult, rfl, fun a b => ?_⟩
    rw [rv32mCase, int64Mul_signExtend, BitVec.ofInt_mul]
    rfl
  | mulhu => exact ⟨mulhuResult, rfl, fun _ _ => rfl⟩
  | mulhsu => exact ⟨mulhsuResult, rfl, fun _ _ => rfl⟩
  | div =>
    refine ⟨divResult, rfl, fun a b => ?_⟩
    simp only [rv32mCase, divResult]
    split_ifs with hzero hmin
    · rfl
    · rfl
    · exact if_neg (not_or.2 ⟨hzero, hmin⟩)
  | divu =>
    refine ⟨divuResult, rfl, fun a b => ?_⟩
    simp only [rv32mCase, divuResult]
    split_ifs with hzero
    · rfl
    · exact if_neg hzero
  | rem =>
    refine ⟨remResult, rfl, fun a b => ?_⟩
    simp only [rv32mCase, remResult]
    split_ifs with hzero hmin
    · rfl
    · rfl
    · exact if_neg (not_or.2 ⟨hzero, hmin⟩)
  | remu =>
    refine ⟨remuResult, rfl, fun a b => ?_⟩
    simp only [rv32mCase, remuResult]
    split_ifs with hzero
    · rfl
    · exact if_neg hzero
  | _ => cases hop

theorem same_rv32m {op : Opcode} (hop : IsRv32m op) :
    Same (execPlain env i op) (execPipeline env i op) := by
  cases op with
  | mul | mulh | mulhu => exact same_mul i _
  | mulhsu => exact same_mulhsu i
  | div | divu | rem | remu => exact same_div i _
  | _ => cases hop

variable {i} in
theorem mulPlain_ok {f : Word → Word → Word} {h : Hart W} (hm : hasExt h.csrs.misa .m = true) :
    mulPlain i f h = .ok ()
      { h with regs := Function.update h.regs i.rd (f (h.regs i.rs1) (h.regs i.rs2)) } := by
  unfold mulPlain
  rw [bind_of_ok (requireIsa_eq_ok (u := ()).2 ⟨hm, rfl⟩)]
  rfl

/-- The cases of RV32M compute the exact results for all operands, without an undefined operator, and
both builds write them. -/
theorem rv32m_exact {op : Opcode} (hop : IsRv32m op) (t : TimedHart W)
    (hm : hasExt t.hart.csrs.misa .m = true) :
    let v := exactResult op (t.hart.regs i.rs1) (t.hart.regs i.rs2)
    rv32mCase op (t.hart.regs i.rs1) (t.hart.regs i.rs2) = some v ∧
      ∀ b, (b = .pipeline → t.pipeline.Valid) → ∃ p, exec env b i op t =
        .ok () ⟨{ t.hart with regs := Function.update t.hart.regs i.rd v }, p⟩ := by
  intro v
  have hcase : rv32mCase op (t.hart.regs i.rs1) (t.hart.regs i.rs2) = some v := rv32mCase_eq hop _ _
  obtain ⟨f, htext, hf⟩ := execPlain_rv32m env i hop
  have hv : f (t.hart.regs i.rs1) (t.hart.regs i.rs2) = v :=
    Option.some.inj ((hf _ _).symm.trans hcase)
  have hplain : execPlain env i op t.hart =
      .ok () { t.hart with regs := Function.update t.hart.regs i.rd v } := by
    rw [htext, mulPlain_ok hm, hv]
  refine ⟨hcase, fun b hvalid => ?_⟩
  cases b with
  | plain => exact ⟨t.pipeline, lift_of_ok hplain⟩
  | pipeline =>
    have hsame := same_rv32m env i hop t.hart t ⟨rfl, hvalid rfl⟩
    rw [hplain] at hsame
    show ∃ p, execPipeline env i op t = _
    cases hpipeline : execPipeline env i op t with
    | ok u t' =>
      rw [hpipeline] at hsame
      obtain ⟨-, hhart, -⟩ := hsame
      exact ⟨t'.pipeline, by rw [← hhart]⟩
    | error e t' =>
      rw [hpipeline] at hsame
      exact hsame.elim

end Builds

/-- `DIV x3, x1, x2` with the least number in `x1` and -1 in `x2`. -/
def dividing : TimedHart BareMemory where
  hart := { Hart.reset machineMode 0x1000 0 fun _ => 0 with
    regs := fun r => if r = 1 then 0x80000000 else if r = 2 then -1 else 0 }
  pipeline := .empty 0

theorem rv32m_exact_dividing : rv32mCase .div 0x80000000 (-1) = some 0x80000000 ∧
    ∀ b, ∃ p, exec Env.bare b (.ofWord 0x0220C1B3) .div dividing = .ok () ⟨{ dividing.hart with
      regs := Function.update dividing.hart.regs 3 0x80000000 }, p⟩ := by
  obtain ⟨hcase, hexec⟩ := rv32m_exact Env.bare (.ofWord 0x0220C1B3)
    (show IsRv32m .div from trivial) dividing (by decide)
  have hv : exactResult .div (dividing.hart.regs (Instruction.ofWord 0x0220C1B3).rs1)
      (dividing.hart.regs (Instruction.ofWord 0x0220C1B3).rs2) = 0x80000000 := by decide
  rw [hv] at hcase hexec
  exact ⟨hcase, fun b => hexec b fun _ => Timing.Pipeline.valid_empty 0⟩

end Vcil.Iss
