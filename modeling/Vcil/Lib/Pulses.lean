import Mathlib.Data.Nat.Init
import Mathlib.Data.List.Basic

/-!
# Signals that show values now and then

A signal `ℕ → Option β` shows a value in some clocks and nothing in the others.

* `Shows sig t ps`: from clock `t` on, `sig` shows the values of `ps` in order, each as many clocks
  after the one before as that one says, and nothing between them;
* `span ps`: the clocks that these values take.
-/

namespace Pulses

variable {β : Type*}

/-- Each entry of the list is a value and the clocks until the next one. -/
def Shows (sig : ℕ → Option β) : ℕ → List (β × ℕ) → Prop
  | _, [] => True
  | t, (b, g) :: ps => 0 < g ∧ sig t = some b ∧ (∀ k, t < k → k < t + g → sig k = none) ∧
      Shows sig (t + g) ps

/-- The clocks from the first value to the end of the last. -/
def span : List (β × ℕ) → ℕ
  | [] => 0
  | (_, g) :: ps => g + span ps

@[simp] theorem span_nil : span ([] : List (β × ℕ)) = 0 := rfl

@[simp] theorem span_cons (p : β × ℕ) (ps : List (β × ℕ)) : span (p :: ps) = p.2 + span ps := rfl

@[simp] theorem span_append (ps qs : List (β × ℕ)) : span (ps ++ qs) = span ps + span qs := by
  induction ps with
  | nil => simp
  | cons p ps ih => simp [ih, Nat.add_assoc]

section Shows

variable {sig : ℕ → Option β} {t : ℕ}

theorem shows_append (ps qs : List (β × ℕ)) :
    Shows sig t (ps ++ qs) ↔ Shows sig t ps ∧ Shows sig (t + span ps) qs := by
  induction ps generalizing t with
  | nil => simp [Shows]
  | cons p ps ih => simp only [List.cons_append, Shows, ih, span_cons, Nat.add_assoc, and_assoc]

/-- What a signal shows depends on the values from the first clock on. -/
theorem Shows.congr {sig' : ℕ → Option β} {ps : List (β × ℕ)} (h : Shows sig t ps)
    (heq : ∀ k, t ≤ k → sig' k = sig k) : Shows sig' t ps := by
  induction ps generalizing t with
  | nil => trivial
  | cons p ps ih =>
    obtain ⟨hpos, hfirst, hquiet, hrest⟩ := h
    refine ⟨hpos, (heq t (Nat.le_refl t)).trans hfirst, ?_, ih hrest fun k hk => heq k (by omega)⟩
    intro k hlo hhi
    exact (heq k (by omega)).trans (hquiet k hlo hhi)

end Shows

end Pulses
