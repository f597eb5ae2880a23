import Mathlib.Data.List.Basic
import Mathlib.Tactic.Set

/-!
# Counting loops

`forLoop lo n body s` is `for (j = lo; j < lo + n; j++) body`, on the state `s`.

* `forLoop_induction` is the invariant rule, `forLoop_relates` the one for two loops;
* `forLoop_set` is the loop that fills an array by a function of the index, `forLoop_set_back` the
  one that fills its end backwards;
* `forLoop_recurrence` is the loop that computes each entry from the ones before it.
-/

namespace Loops

variable {σ α : Type*}

/-- The loop over `lo, ..., lo + n - 1`. -/
def forLoop (lo : ℕ) : ℕ → (ℕ → σ → σ) → σ → σ
  | 0, _, s => s
  | n + 1, body, s => forLoop (lo + 1) n body (body lo s)

/-- An invariant indexed by the loop counter. -/
theorem forLoop_induction {body : ℕ → σ → σ} (P : ℕ → σ → Prop) {lo n : ℕ} {s : σ} (h : P lo s)
    (hbody : ∀ j s, lo ≤ j → j < lo + n → P j s → P (j + 1) (body j s)) :
    P (lo + n) (forLoop lo n body s) := by
  induction n generalizing lo s with
  | zero => exact h
  | succ n ih =>
    have hnext : P (lo + 1) (body lo s) := hbody lo s (Nat.le_refl _) (by omega) h
    have := ih hnext fun j s hlo hhi hj => hbody j s (by omega) (by omega) hj
    rwa [show lo + 1 + n = lo + (n + 1) by omega] at this

/-- Two loops in lockstep keep what relates their states. -/
theorem forLoop_relates {τ : Type*} {body : ℕ → σ → σ} {body' : ℕ → τ → τ} (R : σ → τ → Prop)
    {lo n : ℕ} {s : σ} {s' : τ} (h : R s s')
    (hbody : ∀ j s s', lo ≤ j → j < lo + n → R s s' → R (body j s) (body' j s')) :
    R (forLoop lo n body s) (forLoop lo n body' s') := by
  induction n generalizing lo s s' with
  | zero => exact h
  | succ n ih =>
    have hfirst : R (body lo s) (body' lo s') := hbody lo s s' (Nat.le_refl _) (by omega) h
    exact ih hfirst fun j s s' hlo hhi hj => hbody j s s' (by omega) (by omega) hj

/-- Filling an array from `lo` on: the entries of the loop are new, the others are kept. -/
theorem forLoop_set (f : ℕ → α) {xs : List α} {lo n : ℕ} (hlen : lo + n ≤ xs.length) :
    (forLoop lo n (fun j (ys : List α) => ys.set j (f j)) xs).length = xs.length ∧
      ∀ i, (forLoop lo n (fun j (ys : List α) => ys.set j (f j)) xs)[i]? =
        if lo ≤ i ∧ i < lo + n then some (f i) else xs[i]? := by
  refine forLoop_induction (fun k (ys : List α) => ys.length = xs.length ∧ ∀ i, ys[i]? =
    if lo ≤ i ∧ i < k then some (f i) else xs[i]?) ⟨rfl, fun i => ?_⟩ ?_
  · rw [if_neg (by omega)]
  · rintro k ys hlo hhi ⟨hl, hys⟩
    refine ⟨by rw [List.length_set, hl], fun i => ?_⟩
    rw [List.getElem?_set]
    by_cases hik : k = i
    · subst hik
      rw [if_pos rfl, if_pos (by omega), if_pos (by omega)]
    · have hiff : (lo ≤ i ∧ i < k + 1) ↔ (lo ≤ i ∧ i < k) := by omega
      rw [if_neg hik, hys]
      simp only [hiff]

variable (f : ℕ → α) {xs : List α} {lo n : ℕ}

theorem length_forLoop_set (hlen : lo + n ≤ xs.length) :
    (forLoop lo n (fun j (ys : List α) => ys.set j (f j)) xs).length = xs.length :=
  (forLoop_set f hlen).1

theorem getD_forLoop_set (d : α) (hlen : lo + n ≤ xs.length) (i : ℕ) :
    (forLoop lo n (fun j (ys : List α) => ys.set j (f j)) xs).getD i d =
      if lo ≤ i ∧ i < lo + n then f i else xs.getD i d := by
  rw [List.getD_eq_getElem?_getD, (forLoop_set f hlen).2 i]
  split_ifs
  · rfl
  · rw [List.getD_eq_getElem?_getD]

/-- Filling the last `n` entries, from the end. -/
theorem forLoop_set_back (g : ℕ → α) (xs : List α) (a : α) (m n : ℕ) :
    forLoop 0 n (fun i (ys : List α) => ys.set (xs.length + m + n - i - 1) (g i))
        (xs ++ List.replicate (m + n) a) =
      xs ++ (List.replicate m a ++ (List.range n).reverse.map g) := by
  have hall : forLoop 0 n (fun i (ys : List α) => ys.set (xs.length + m + n - i - 1) (g i))
        (xs ++ List.replicate (m + n) a) =
      xs ++ (List.replicate (m + n - (0 + n)) a ++ (List.range (0 + n)).reverse.map g) := by
    refine forLoop_induction
      (fun k ys => ys = xs ++ (List.replicate (m + n - k) a ++ (List.range k).reverse.map g))
      (by simp) ?_
    rintro k ys - hk rfl
    -- the last entry of those not yet filled is the one set
    obtain ⟨r, hr⟩ : ∃ r, m + n - k = r + 1 := ⟨m + n - k - 1, by omega⟩
    rw [show xs.length + m + n - k - 1 = xs.length + r by omega, hr,
      show m + n - (k + 1) = r by omega, List.set_append_right _ _ (by omega),
      Nat.add_sub_cancel_left, List.replicate_succ', List.append_assoc,
      List.set_append_right _ _ (by simp)]
    simp [List.range_succ]
  rw [hall, Nat.zero_add, Nat.add_sub_cancel]

/-- A loop that sets entry `j + d` to what `g` computes from earlier entries: the first `d` entries
are kept, and all others are as `g` computes them from the array in which the loop ends. -/
theorem forLoop_recurrence {d n : ℕ} (a : α) {g : ℕ → List α → α}
    (hg : ∀ j ys zs, (∀ k < j + d, ys.getD k a = zs.getD k a) → g j ys = g j zs) {xs : List α}
    (hlen : n + d ≤ xs.length) :
    (∀ k < d, (forLoop 0 n (fun j ys => ys.set (j + d) (g j ys)) xs).getD k a = xs.getD k a) ∧
      ∀ j < n, (forLoop 0 n (fun j ys => ys.set (j + d) (g j ys)) xs).getD (j + d) a =
        g j (forLoop 0 n (fun j ys => ys.set (j + d) (g j ys)) xs) := by
  set body := fun j (ys : List α) => ys.set (j + d) (g j ys) with hbody
  have hall : (forLoop 0 n body xs).length = xs.length ∧
      (∀ k < d, (forLoop 0 n body xs).getD k a = xs.getD k a) ∧
      ∀ j < 0 + n, (forLoop 0 n body xs).getD (j + d) a = g j (forLoop 0 n body xs) := by
    refine forLoop_induction (fun i ys => ys.length = xs.length ∧
      (∀ k < d, ys.getD k a = xs.getD k a) ∧ ∀ j < i, ys.getD (j + d) a = g j ys)
      ⟨rfl, fun _ _ => rfl, fun _ hj => absurd hj (Nat.not_lt_zero _)⟩ ?_
    rintro i ys - hi ⟨hl, hkept, hset⟩
    -- the entries below the one that is set
    have hbelow : ∀ k < i + d, (body i ys).getD k a = ys.getD k a := fun k hk => by
      rw [hbody, List.getD_eq_getElem?_getD, List.getElem?_set_ne (by omega),
        ← List.getD_eq_getElem?_getD]
    refine ⟨by rw [hbody, List.length_set, hl], fun k hk => ?_, fun j hj => ?_⟩
    · rw [hbelow k (by omega), hkept k hk]
    · rcases Nat.lt_succ_iff_lt_or_eq.1 hj with hlt | rfl
      · rw [hbelow _ (by omega), hset j hlt]
        exact hg j _ _ fun k hk => (hbelow k (by omega)).symm
      · rw [hbody, List.getD_eq_getElem?_getD, List.getElem?_set_self (by omega), Option.getD_some]
        exact hg j _ _ fun k hk => (hbelow k hk).symm
  rw [Nat.zero_add] at hall
  exact hall.2

end Loops
