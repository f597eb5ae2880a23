import Mathlib.Tactic.Ring
import Mathlib.Data.List.Induction

/-!
# Words, rotations and big-endian byte strings

Bit vectors as hardware and C write them.

* `beNat` is the value of a byte string, `beWord w` its low `w` bits;
* a shift register `{r[w-1:0], b}` appends one byte to its string (`beWord_concat`);
* a field on byte boundaries holds the bytes written there (`field_beWord`);
* `beBytes` splits a word into bytes (`beWord_beBytes`);
* four bytes shifted into place make a word, added or or-ed (`add_shifted`, `or_shifted`);
* two adjacent parts concatenated the other way round are a rotation (`rotl_concat`), and so is
  a shift left or-ed with the complementary shift right (`shift_or_shift`).
-/

namespace Words

/-! ### Byte strings -/

/-- The value of a byte string, most significant byte first. -/
def beNat (bs : List (BitVec 8)) : ℕ := bs.foldl (fun v b => 256 * v + b.toNat) 0

@[simp] theorem beNat_nil : beNat [] = 0 := rfl

theorem beNat_concat (bs : List (BitVec 8)) (b : BitVec 8) :
    beNat (bs ++ [b]) = 256 * beNat bs + b.toNat := by
  simp [beNat, List.foldl_append]

theorem beNat_append (xs ys : List (BitVec 8)) :
    beNat (xs ++ ys) = beNat xs * 256 ^ ys.length + beNat ys := by
  induction ys using List.reverseRecOn with
  | nil => simp
  | append_singleton ys b ih =>
    rw [← List.append_assoc, beNat_concat, beNat_concat, ih, List.length_append,
      List.length_singleton, pow_succ]
    ring

@[simp] theorem beNat_singleton (b : BitVec 8) : beNat [b] = b.toNat := by
  simp [beNat]

theorem beNat_lt (bs : List (BitVec 8)) : beNat bs < 256 ^ bs.length := by
  induction bs using List.reverseRecOn with
  | nil => simp
  | append_singleton bs b ih =>
    have hb := b.isLt
    rw [beNat_concat, List.length_append, List.length_singleton, pow_succ]
    omega

/-- The low `w` bits of a byte string. -/
def beWord (w : ℕ) (bs : List (BitVec 8)) : BitVec w := BitVec.ofNat w (beNat bs)

theorem pow_256 (n : ℕ) : 256 ^ n = 2 ^ (8 * n) := by
  rw [pow_mul, show 2 ^ 8 = 256 from rfl]

/-- Shifting one byte into a register appends it to the register's string. -/
theorem beWord_concat (w : ℕ) (bs : List (BitVec 8)) (b : BitVec 8) :
    (beWord (w + 8) bs).extractLsb' 0 w ++ b = beWord (w + 8) (bs ++ [b]) := by
  apply BitVec.eq_of_toNat_eq
  have hb := b.isLt
  rw [BitVec.toNat_append, BitVec.extractLsb'_toNat, beWord, beWord, BitVec.toNat_ofNat,
    BitVec.toNat_ofNat, beNat_concat, Nat.shiftRight_zero,
    Nat.mod_mod_of_dvd _ (Nat.pow_dvd_pow 2 (Nat.le_add_right w 8)),
    ← Nat.shiftLeft_add_eq_or_of_lt hb, Nat.shiftLeft_eq, pow_add,
    show (2 : ℕ) ^ 8 = 256 from rfl, mul_comm (2 ^ w) 256, Nat.add_comm (256 * beNat bs),
    Nat.mod_mul, Nat.add_mul_mod_self_left, Nat.mod_eq_of_lt hb,
    Nat.add_mul_div_left _ _ (by decide), Nat.div_eq_of_lt hb, Nat.zero_add, Nat.add_comm,
    Nat.mul_comm]

/-- A field that starts `zs` bytes from the low end of a word holds the bytes above `zs`. -/
theorem field_beWord {w lo len : ℕ} (xs ys zs : List (BitVec 8)) (hlo : lo = 8 * zs.length)
    (hlen : len = 8 * ys.length) (h : lo + len ≤ w) :
    (beWord w (xs ++ ys ++ zs)).extractLsb' lo len = beWord len ys := by
  subst hlo hlen
  apply BitVec.eq_of_toNat_eq
  have hz := beNat_lt zs
  rw [pow_256] at hz
  obtain ⟨d, rfl⟩ := Nat.exists_eq_add_of_le h
  rw [BitVec.extractLsb'_toNat, beWord, beWord, BitVec.toNat_ofNat, BitVec.toNat_ofNat,
    beNat_append, pow_256, Nat.shiftRight_eq_div_pow, Nat.add_assoc,
    pow_add 2 (8 * zs.length), Nat.mod_mul_right_div_self,
    Nat.mod_mod_of_dvd _ (Nat.pow_dvd_pow 2 (Nat.le_add_right _ d)),
    mul_comm (beNat (xs ++ ys)), Nat.mul_add_div (Nat.two_pow_pos _), Nat.div_eq_of_lt hz,
    Nat.add_zero, beNat_append, pow_256, Nat.mul_add_mod_self_right]

/-- The `n` low bytes of a word, most significant first. -/
def beBytes {w : ℕ} (n : ℕ) (x : BitVec w) : List (BitVec 8) :=
  (List.range n).reverse.map fun k => x.extractLsb' (8 * k) 8

@[simp] theorem length_beBytes {w : ℕ} (n : ℕ) (x : BitVec w) : (beBytes n x).length = n := by
  simp [beBytes]

theorem beBytes_succ {w : ℕ} (n : ℕ) (x : BitVec w) :
    beBytes (n + 1) x = x.extractLsb' (8 * n) 8 :: beBytes n x := by
  simp [beBytes, List.range_succ]

theorem beNat_beBytes {w : ℕ} (n : ℕ) (x : BitVec w) :
    beNat (beBytes n x) = x.toNat % 256 ^ n := by
  induction n with
  | zero => simp [beBytes, Nat.mod_one]
  | succ n ih =>
    have hbyte : (x.extractLsb' (8 * n) 8).toNat = x.toNat / 256 ^ n % 256 := by
      rw [BitVec.extractLsb'_toNat, Nat.shiftRight_eq_div_pow, ← pow_256]
    rw [beBytes_succ, ← List.singleton_append, beNat_append, ih, length_beBytes, beNat_singleton,
      hbyte, pow_succ 256 n, Nat.mod_mul]
    ring

/-- Splitting a word into all its bytes loses nothing. -/
theorem beWord_beBytes (n : ℕ) (x : BitVec (8 * n)) : beWord (8 * n) (beBytes n x) = x := by
  apply BitVec.eq_of_toNat_eq
  rw [beWord, BitVec.toNat_ofNat, beNat_beBytes, pow_256, Nat.mod_mod, Nat.mod_eq_of_lt x.isLt]

/-- A byte of a word, as C takes it. -/
theorem shifted_byte {w : ℕ} (hw : 8 ≤ w) (x : BitVec w) (k : ℕ) :
    ((x >>> k) &&& 0xff).setWidth 8 = x.extractLsb' k 8 := by
  have hmask : (0xff : BitVec w).setWidth 8 = BitVec.allOnes 8 := by
    have hlt : 255 < 2 ^ w := Nat.lt_of_lt_of_le (by decide) (Nat.pow_le_pow_right Nat.two_pos hw)
    apply BitVec.eq_of_toNat_eq
    simp only [BitVec.ofNat_eq_ofNat, BitVec.toNat_setWidth, BitVec.toNat_ofNat,
      Nat.mod_eq_of_lt hlt]
    rfl
  rw [BitVec.setWidth_and, hmask, BitVec.and_allOnes]
  apply BitVec.eq_of_getLsbD_eq
  intro i hi
  simp

/-! ### Words from shifted bytes -/

theorem and_shifted_mask (b : BitVec 8) (k : ℕ) :
    (b.setWidth 32 <<< k) &&& ((0xff : BitVec 8).setWidth 32 <<< k) = b.setWidth 32 <<< k := by
  have hall : b &&& 0xff = b := BitVec.and_allOnes
  rw [← BitVec.shiftLeft_and_distrib, ← BitVec.setWidth_and, hall]

theorem toNat_shifted (b : BitVec 8) {k : ℕ} (hk : k ≤ 24) :
    (b.setWidth 32 <<< k).toNat = b.toNat * 2 ^ k := by
  have hb := b.isLt
  have hlt : b.toNat * 2 ^ k < 2 ^ 32 := calc
    b.toNat * 2 ^ k < 2 ^ 8 * 2 ^ k := Nat.mul_lt_mul_of_pos_right hb (Nat.two_pow_pos k)
    _ ≤ 2 ^ 8 * 2 ^ 24 := Nat.mul_le_mul_left _ (Nat.pow_le_pow_right (by decide) hk)
  have hwidth : b.toNat % 2 ^ 32 = b.toNat := Nat.mod_eq_of_lt (by omega)
  rw [BitVec.toNat_shiftLeft, BitVec.toNat_setWidth, hwidth, Nat.shiftLeft_eq,
    Nat.mod_eq_of_lt hlt]

/-- A word added up from its four bytes. -/
theorem add_shifted (b0 b1 b2 b3 : BitVec 8) :
    b0.setWidth 32 <<< 24 + b1.setWidth 32 <<< 16 + b2.setWidth 32 <<< 8 +
      b3.setWidth 32 <<< 0 = beWord 32 [b0, b1, b2, b3] := by
  have hval : beNat [b0, b1, b2, b3] =
      b0.toNat * 2 ^ 24 + b1.toNat * 2 ^ 16 + b2.toNat * 2 ^ 8 + b3.toNat := by
    simp only [beNat, List.foldl_cons, List.foldl_nil]
    ring
  apply BitVec.eq_of_toNat_eq
  rw [beWord, BitVec.toNat_ofNat, hval]
  simp only [BitVec.toNat_add, toNat_shifted b0 (Nat.le_refl 24),
    toNat_shifted b1 (show 16 ≤ 24 by decide), toNat_shifted b2 (show 8 ≤ 24 by decide),
    toNat_shifted b3 (Nat.zero_le 24)]
  omega

theorem shifted_disjoint (a b : BitVec 8) {k l : ℕ} (hkl : l + 8 ≤ k) :
    (a.setWidth 32 <<< k) &&& (b.setWidth 32 <<< l) = 0#32 := by
  apply BitVec.eq_of_getLsbD_eq
  intro i hi
  rw [BitVec.getLsbD_and, BitVec.getLsbD_shiftLeft, BitVec.getLsbD_shiftLeft,
    BitVec.getLsbD_zero]
  rcases Nat.lt_or_ge i k with h | h
  · simp [h]
  · have : b.getLsbD (i - l) = false := BitVec.getLsbD_of_ge b _ (by omega)
    simp [this]

/-- A word or-ed together from its four bytes. -/
theorem or_shifted (b0 b1 b2 b3 : BitVec 8) :
    b0.setWidth 32 <<< 24 ||| b1.setWidth 32 <<< 16 ||| b2.setWidth 32 <<< 8 |||
      b3.setWidth 32 <<< 0 = beWord 32 [b0, b1, b2, b3] := by
  have h1 := shifted_disjoint b0 b1 (show 16 + 8 ≤ 24 by decide)
  have h2 : (b0.setWidth 32 <<< 24 ||| b1.setWidth 32 <<< 16) &&& (b2.setWidth 32 <<< 8) =
      0#32 := by
    rw [BitVec.and_or_distrib_right, shifted_disjoint b0 b2 (by decide),
      shifted_disjoint b1 b2 (by decide)]
    rfl
  have h3 : (b0.setWidth 32 <<< 24 ||| b1.setWidth 32 <<< 16 ||| b2.setWidth 32 <<< 8) &&&
      (b3.setWidth 32 <<< 0) = 0#32 := by
    rw [BitVec.and_or_distrib_right, BitVec.and_or_distrib_right,
      shifted_disjoint b0 b3 (by decide), shifted_disjoint b1 b3 (by decide),
      shifted_disjoint b2 b3 (by decide)]
    rfl
  rw [← BitVec.add_eq_or_of_and_eq_zero _ _ h3, ← BitVec.add_eq_or_of_and_eq_zero _ _ h2,
    ← BitVec.add_eq_or_of_and_eq_zero _ _ h1, add_shifted]

/-! ### Rotations -/

/-- `{x[m-1:0], x[m+n-1:m]}` rotates left by `n`. -/
theorem rotl_concat {m n : ℕ} (hm : 0 < m) (x : BitVec (m + n)) :
    x.extractLsb' 0 m ++ x.extractLsb' m n = x.rotateLeft n := by
  apply BitVec.eq_of_getLsbD_eq
  intro i hi
  rw [BitVec.getLsbD_append, BitVec.getLsbD_rotateLeft, Nat.mod_eq_of_lt (by omega)]
  by_cases h : i < n
  · simp [h]
  · have h1 : i - n < m := by omega
    simp [h, hi, h1]

theorem shift_or_shift {w n : ℕ} (x : BitVec w) (hn : n < w) :
    (x <<< n) ||| (x >>> (w - n)) = x.rotateLeft n := by
  rw [BitVec.rotateLeft_def, Nat.mod_eq_of_lt hn]

/-- A rotation to the left undoes the one to the right. -/
theorem rotateLeft_rotateRight {w n : ℕ} (x : BitVec w) (hn : n < w) :
    (x.rotateRight n).rotateLeft n = x := by
  apply BitVec.eq_of_getElem_eq
  intro i hi
  rw [BitVec.getElem_rotateLeft]
  by_cases hlow : i < n
  · rw [dif_pos (by rwa [Nat.mod_eq_of_lt hn]), BitVec.getElem_rotateRight,
      dif_neg (by rw [Nat.mod_eq_of_lt hn]; omega)]
    congr 1
    omega
  · rw [dif_neg (by rwa [Nat.mod_eq_of_lt hn]), BitVec.getElem_rotateRight,
      dif_pos (by rw [Nat.mod_eq_of_lt hn]; omega)]
    congr 1
    rw [Nat.mod_eq_of_lt hn]
    omega

end Words
