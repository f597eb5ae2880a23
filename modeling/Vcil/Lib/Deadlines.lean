import Mathlib.Algebra.Order.Ring.Int
import Vcil.Lib.Fallible

/-!
# Deadlines

Computations over a state in which something may be under way.  `P s e` says that all of it is over
at the time `e`; a computation puts this time off by its cost, whatever it finds under way.  So the
costs of a sequence add up, and what is waited for has been paid by the one who began it.

* `NoLater P`: no deadline moves; computations that respect it may wait, but begin nothing;
* `Deadline P Q`: `Q` is `P` with the next tick of the clock included;
* `Takes P Q c m`: `m` puts the deadline off by the tick after it and `c` more at most;
* one rule for each way to put computations together.
-/

namespace Fallible

variable {ε σ α β : Type} {P Q : σ → ℤ → Prop} {c d : ℕ}

/-- What is over at a time before is over at it after. -/
def NoLater (P : σ → ℤ → Prop) (s t : σ) : Prop := ∀ e, P s e → P t e

instance : IsPreorder σ (NoLater P) where
  refl _ _ := id
  trans _ _ _ h₁ h₂ e := h₂ e ∘ h₁ e

/-- `Q` is `P` with a tick to come. -/
class Deadline (P Q : σ → ℤ → Prop) : Prop where
  tick : ∀ s e, P s e → Q s (e + 1)
  mono : ∀ s e e', e ≤ e' → Q s e → Q s e'

/-- `m` puts the deadline off by a tick and `c` more at most, whatever the outcome. -/
class Takes (P Q : σ → ℤ → Prop) (c : outParam ℕ) (m : EStateM ε σ α) : Prop where
  later : ∀ s e, P s e → Q (final (m s)) (e + 1 + c)

section

variable [Deadline P Q]

theorem Deadline.later {s : σ} {e : ℤ} (h : P s e) (c : ℕ) : Q s (e + 1 + c) :=
  Deadline.mono (P := P) s (e + 1) (e + 1 + c) (by omega) (Deadline.tick s e h)

theorem Takes.mono {m : EStateM ε σ α} (hm : Takes P Q c m) (hcd : c ≤ d) : Takes P Q d m where
  later s e h := Deadline.mono (P := P) _ (e + 1 + c) _ (by omega) (hm.later s e h)

/-- What only waits takes the tick. -/
instance (priority := low) Takes.of_keeps {m : EStateM ε σ α} [hm : Respects (NoLater P) m] :
    Takes P Q 0 m where
  later s e h := Deadline.later (hm.rel s e h) 0

instance Takes.after_keeps {m : EStateM ε σ α} {k : α → EStateM ε σ β} [hm : Respects (NoLater P) m]
    [hk : ∀ a, Takes P Q c (k a)] : Takes P Q c (m >>= k) where
  later s e h := by
    have hs := hm.rel s e h
    show Q (final (EStateM.bind m k s)) (e + 1 + c)
    unfold EStateM.bind
    cases hms : m s with
    | ok a t =>
      rw [hms] at hs
      exact (hk a).later t e hs
    | error _ t =>
      rw [hms] at hs
      exact Deadline.later hs c

omit [Deadline P Q] in
theorem Takes.before_keeps {m : EStateM ε σ α} {k : α → EStateM ε σ β} (hm : Takes P Q c m)
    (hk : ∀ a, Respects (NoLater Q) (k a)) : Takes P Q c (m >>= k) where
  later s e h := by
    have hs := hm.later s e h
    show Q (final (EStateM.bind m k s)) (e + 1 + c)
    unfold EStateM.bind
    cases hms : m s with
    | ok a t =>
      rw [hms] at hs
      exact (hk a).rel t _ hs
    | error _ t =>
      rw [hms] at hs
      exact hs

instance (priority := low) {m : EStateM ε σ α} {k : α → EStateM ε σ β} [hm : Takes P Q c m]
    [hk : ∀ a, Respects (NoLater Q) (k a)] : Takes P Q c (m >>= k) := hm.before_keeps hk

instance Takes.ite {b : Prop} [Decidable b] {m₁ m₂ : EStateM ε σ α} [h₁ : Takes P Q c m₁]
    [h₂ : Takes P Q d m₂] : Takes P Q (max c d) (if b then m₁ else m₂) := by
  by_cases hb : b
  · rw [if_pos hb]
    exact h₁.mono (le_max_left c d)
  · rw [if_neg hb]
    exact h₂.mono (le_max_right c d)

end

end Fallible
