import Mathlib.Data.Nat.Notation

/-!
# Bit fields

A C bit field laid over a 32-bit register.

* `BitField.get`, `BitField.isSet`, `BitField.put`: reading a field or a flag, writing a field;
* `get_put`, `get_put_of_apart`: what a field holds after a write to it, or to one apart from it;
* `put_get`: writing back what a field holds;
* `writeMasked`: writing the bits of a mask only;
* `put_and`, `writeMasked_and`: the bits that a write leaves alone.
-/

/-- `len` bits from bit `lo` on. -/
structure BitField where
  lo : ℕ
  len : ℕ
  deriving DecidableEq, Repr

namespace BitField

variable (f : BitField)

def get (reg : BitVec 32) : BitVec f.len := reg.extractLsb' f.lo f.len

/-- Whether the lowest bit, of a flag the only one, is set. -/
def isSet (reg : BitVec 32) : Bool := reg.getLsbD f.lo

/-- The bits of the field. -/
def mask : BitVec 32 := (BitVec.allOnes f.len).setWidth 32 <<< f.lo

def put (v : BitVec f.len) (reg : BitVec 32) : BitVec 32 :=
  (reg &&& ~~~f.mask) ||| (v.setWidth 32 <<< f.lo)

/-- The field lies in the register. -/
abbrev Fits : Prop := f.lo + f.len ≤ 32

/-- The two fields share no bit. -/
abbrev Apart (g : BitField) : Prop := f.lo + f.len ≤ g.lo ∨ g.lo + g.len ≤ f.lo

theorem getLsbD_put (v : BitVec f.len) (reg : BitVec 32) {i : ℕ} (hi : i < 32) :
    (f.put v reg).getLsbD i =
      if f.lo ≤ i ∧ i < f.lo + f.len then v.getLsbD (i - f.lo) else reg.getLsbD i := by
  simp only [put, mask, BitVec.getLsbD_or, BitVec.getLsbD_and, BitVec.getLsbD_not,
    BitVec.getLsbD_shiftLeft, BitVec.getLsbD_setWidth, BitVec.getLsbD_allOnes, hi]
  by_cases hlo : f.lo ≤ i
  · have hlt : ¬i < f.lo := by omega
    have hwidth : i - f.lo < 32 := by omega
    by_cases hlen : i < f.lo + f.len
    · have hin : i - f.lo < f.len := by omega
      simp [hlo, hlt, hlen, hin, hwidth]
    · have hout : ¬i - f.lo < f.len := by omega
      have hv : v.getLsbD (i - f.lo) = false := BitVec.getLsbD_of_ge v _ (by omega)
      simp [hlt, hlen, hout, hwidth, hv]
  · have hlt : i < f.lo := by omega
    simp [hlo, hlt]

theorem get_put (hf : f.Fits) (v : BitVec f.len) (reg : BitVec 32) : f.get (f.put v reg) = v := by
  refine BitVec.eq_of_getLsbD_eq fun i hi => ?_
  rw [get, BitVec.getLsbD_extractLsb', getLsbD_put f v reg (by omega)]
  simp [hi]

theorem get_put_of_apart {g : BitField} (hg : g.Fits) (h : f.Apart g) (v : BitVec f.len)
    (reg : BitVec 32) : g.get (f.put v reg) = g.get reg := by
  refine BitVec.eq_of_getLsbD_eq fun i hi => ?_
  rw [get, get, BitVec.getLsbD_extractLsb', BitVec.getLsbD_extractLsb',
    getLsbD_put f v reg (by omega), if_neg (by omega)]

theorem put_get (reg : BitVec 32) : f.put (f.get reg) reg = reg := by
  refine BitVec.eq_of_getLsbD_eq fun i hi => ?_
  rw [getLsbD_put f _ reg hi]
  by_cases hin : f.lo ≤ i ∧ i < f.lo + f.len
  · rw [if_pos hin, get, BitVec.getLsbD_extractLsb', Nat.add_sub_cancel' hin.1]
    simp only [show i - f.lo < f.len by omega, decide_true, Bool.true_and]
  · rw [if_neg hin]

/-- Bits apart from the field are kept. -/
theorem put_and {bits : BitVec 32} (hbits : f.get bits = 0) (v : BitVec f.len) (reg : BitVec 32) :
    f.put v reg &&& bits = reg &&& bits := by
  refine BitVec.eq_of_getLsbD_eq fun i hi => ?_
  rw [BitVec.getLsbD_and, BitVec.getLsbD_and, getLsbD_put f v reg hi]
  by_cases hin : f.lo ≤ i ∧ i < f.lo + f.len
  · have hbit := congrArg (·.getLsbD (i - f.lo)) hbits
    simp only [get, BitVec.getLsbD_extractLsb', Nat.add_sub_cancel' hin.1,
      show i - f.lo < f.len by omega, decide_true, Bool.true_and] at hbit
    simp [hbit]
  · rw [if_neg hin]

end BitField

/-- `reg` with the bits of `mask` taken from `value`. -/
def writeMasked (reg value mask : BitVec 32) : BitVec 32 := (reg &&& ~~~mask) ||| (value &&& mask)

/-- The bits outside of the mask are kept. -/
theorem writeMasked_and_not (reg value mask : BitVec 32) :
    writeMasked reg value mask &&& ~~~mask = reg &&& ~~~mask := by
  refine BitVec.eq_of_getLsbD_eq fun i hi => ?_
  simp only [writeMasked, BitVec.getLsbD_and, BitVec.getLsbD_or, BitVec.getLsbD_not, hi]
  cases mask.getLsbD i <;> simp

/-- So are the bits that the mask does not have. -/
theorem writeMasked_and {mask bits : BitVec 32} (hbits : mask &&& bits = 0)
    (reg value : BitVec 32) : writeMasked reg value mask &&& bits = reg &&& bits := by
  refine BitVec.eq_of_getLsbD_eq fun i hi => ?_
  have hbit := congrArg (·.getLsbD i) hbits
  simp only [writeMasked, BitVec.getLsbD_and, BitVec.getLsbD_or, BitVec.getLsbD_not, hi] at hbit ⊢
  cases hmask : mask.getLsbD i <;> simp_all
