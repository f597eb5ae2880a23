import Mathlib.Data.Nat.ModEq

/-!
# A counter in two halves

A counter that is read in two halves, the upper one `n / base % size` and the lower one `n % base`,
while it goes on.

* `upper_eq`: the upper half is the same in between when it is the same before and after;
* `upper_changed`: after it has changed it does not change again for a while.
-/

namespace SplitCounter

variable {base size n : ℕ}

/-- The upper half. -/
def upper (base size n : ℕ) : ℕ := n / base % size

/-- In less than `base` steps the quotient grows by one at most. -/
theorem div_add_le {d : ℕ} (hd : d < base) : (n + d) / base ≤ n / base + 1 := by
  have hpos : 0 < base := by omega
  rw [← Nat.add_div_right n hpos]
  exact Nat.div_le_div_right (by omega)

theorem upper_succ_ne (hsize : 1 < size) (q : ℕ) : (q + 1) % size ≠ q % size := by
  intro h
  have hmod : (q + 1) ≡ q + 0 [MOD size] := h
  have hone : 1 ≡ 0 [MOD size] := Nat.ModEq.add_left_cancel' q hmod
  rw [Nat.ModEq, Nat.mod_eq_of_lt hsize, Nat.zero_mod] at hone
  exact absurd hone Nat.one_ne_zero

/-- The quotient has not changed, if its remainder has not. -/
theorem div_eq_of_upper_eq {d : ℕ} (hsize : 1 < size) (hd : d < base)
    (hupper : upper base size (n + d) = upper base size n) : (n + d) / base = n / base := by
  have hle : n / base ≤ (n + d) / base := Nat.div_le_div_right (Nat.le_add_right n d)
  rcases Nat.eq_or_lt_of_le hle with heq | hlt
  · exact heq.symm
  · have hnext : (n + d) / base = n / base + 1 := by
      have hgrown := div_add_le (n := n) hd
      omega
    rw [upper, hnext] at hupper
    exact absurd hupper (upper_succ_ne hsize _)

theorem upper_eq {d e : ℕ} (hsize : 1 < size) (hd : d + e < base)
    (hupper : upper base size (n + (d + e)) = upper base size n) :
    upper base size (n + (d + e)) = upper base size (n + d) := by
  have hquot := div_eq_of_upper_eq hsize hd hupper
  have hfirst : n / base ≤ (n + d) / base := Nat.div_le_div_right (by omega)
  have hsecond : (n + d) / base ≤ (n + (d + e)) / base := Nat.div_le_div_right (by omega)
  have hsame : (n + (d + e)) / base = (n + d) / base := by omega
  rw [upper, upper, hsame]

theorem upper_changed {d e : ℕ} (hd : d + e < base)
    (hupper : upper base size (n + d) ≠ upper base size n) :
    upper base size (n + d) = upper base size (n + (d + e)) := by
  have hne : (n + d) / base ≠ n / base := fun hquot => hupper (by rw [upper, upper, hquot])
  have hfirst : n / base ≤ (n + d) / base := Nat.div_le_div_right (by omega)
  have hsecond : (n + d) / base ≤ (n + (d + e)) / base := Nat.div_le_div_right (by omega)
  have hgrown := div_add_le (n := n) hd
  have hsame : (n + (d + e)) / base = (n + d) / base := by omega
  rw [upper, upper, hsame]

end SplitCounter
