import Mathlib.Data.Fin.Rev
import Mathlib.Logic.Function.Basic

/-!
# Shift registers with feedback

A sequence in which each round computes one more cell from the oldest of the last `m + 1` cells
and the `m` cells after it; a block cipher of the Feistel kind is such a sequence.

* `Runs f n x`: the sequence `x` makes `n` rounds of `f`;
* `reverse f n`: the rounds in the opposite order, each on its window read backwards;
* `Runs.undone`: if every round is an involution of the oldest cell, the rounds of `reverse f n`
  lead from the last `m + 1` cells of a run of `f`, read backwards, through the whole of it.
-/

namespace ShiftRegister

variable {α : Type*} {m : ℕ}

/-- The `m` cells after cell `i`. -/
def window (m : ℕ) (x : ℕ → α) (i : ℕ) : Fin m → α := fun k => x (i + 1 + k)

/-- Cell `i + m + 1` is what round `i` makes of cell `i`, given the cells between. -/
def Runs (f : ℕ → (Fin m → α) → α → α) (n : ℕ) (x : ℕ → α) : Prop :=
  ∀ i < n, x (i + m + 1) = f i (window m x i) (x i)

/-- The rounds of `f` from the last to the first. -/
def reverse (f : ℕ → (Fin m → α) → α → α) (n : ℕ) : ℕ → (Fin m → α) → α → α :=
  fun j w => f (n - 1 - j) (w ∘ Fin.rev)

variable {f : ℕ → (Fin m → α) → α → α} {n : ℕ} {x y : ℕ → α}

/-- The first `m + 1` cells determine a run. -/
theorem Runs.unique (hx : Runs f n x) (hy : Runs f n y) (hstart : ∀ j ≤ m, y j = x j) {j : ℕ}
    (hj : j ≤ n + m) : y j = x j := by
  induction j using Nat.strong_induction_on with
  | h j ih =>
    rcases Nat.lt_or_ge m j with hlt | hle
    · obtain ⟨i, rfl⟩ : ∃ i, j = i + m + 1 := ⟨j - m - 1, by omega⟩
      have hwindow : window m y i = window m x i := by
        funext k
        have := k.isLt
        exact ih (i + 1 + k) (by omega) (by omega)
      rw [hy i (by omega), hx i (by omega), hwindow, ih i (by omega) (by omega)]
    · exact hstart j hle

/-- A run read backwards is a run of the reversed rounds. -/
theorem Runs.reverse (hinv : ∀ i < n, ∀ w, Function.Involutive (f i w)) (hx : Runs f n x) :
    Runs (reverse f n) n fun j => x (n + m - j) := by
  intro j hj
  -- round `j` undoes round `i`
  obtain ⟨i, hi⟩ : ∃ i, i = n - 1 - j := ⟨_, rfl⟩
  have hwindow : window m (fun j => x (n + m - j)) j ∘ Fin.rev = window m x i := by
    funext k
    have := k.isLt
    show x (n + m - (j + 1 + (Fin.rev k : ℕ))) = x (i + 1 + k)
    rw [Fin.val_rev]
    exact congrArg x (by omega)
  show x (n + m - (j + m + 1)) = f (n - 1 - j) (window m (fun j => x (n + m - j)) j ∘ Fin.rev)
    (x (n + m - j))
  rw [hwindow, ← hi, show n + m - (j + m + 1) = i by omega, show n + m - j = i + m + 1 by omega,
    hx i (by omega), hinv i (by omega)]

/-- The reversed rounds, begun on the end of a run, go back to its begin. -/
theorem Runs.undone (hinv : ∀ i < n, ∀ w, Function.Involutive (f i w)) (hx : Runs f n x)
    (hy : Runs (ShiftRegister.reverse f n) n y) (hstart : ∀ j ≤ m, y j = x (n + m - j)) {j : ℕ}
    (hj : j ≤ n + m) : y j = x (n + m - j) :=
  (hx.reverse hinv).unique hy hstart hj

end ShiftRegister
