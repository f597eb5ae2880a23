import Mathlib.Tactic.SplitIfs
import Mathlib.Data.Int.Order.Basic

/-!
# Saturating counters

A counter from 0 to `M` that counts one up or down with each event and predicts an event up from `θ`
on.  If all events of a counter are alike, it is wrong only until it has reached their side.

* `step`, `predict`: an event, and the prediction of the next one;
* `debt`: the number of wrong predictions that are left, if all events are alike;
* `debt_step_lt`: a wrong prediction pays one of them.
-/

namespace SaturatingCounter

variable {M θ c : ℤ} {up : Bool}

/-- A step up or down that stays between 0 and `M`. -/
def step (M : ℤ) (up : Bool) (c : ℤ) : ℤ := if up then min (c + 1) M else max (c - 1) 0

/-- The counter has reached the threshold. -/
def predict (θ c : ℤ) : Bool := θ ≤ c

/-- The distance to the side that predicts `up`. -/
def debt (θ : ℤ) (up : Bool) (c : ℤ) : ℕ := if up then (θ - c).toNat else (c + 1 - θ).toNat

theorem debt_le (h : 0 ≤ c ∧ c ≤ M) (up : Bool) : debt θ up c ≤ max θ.toNat (M + 1 - θ).toNat := by
  unfold debt
  split_ifs <;> omega

/-- A counter that has reached one side stays there. -/
theorem debt_step_le (hθ : 0 < θ ∧ θ ≤ M) (up : Bool) (c : ℤ) :
    debt θ up (step M up c) ≤ debt θ up c := by
  unfold debt step
  split_ifs <;> omega

theorem debt_step_lt (h : 0 ≤ c ∧ c ≤ M) (hθ : 0 < θ ∧ θ ≤ M) (hwrong : predict θ c ≠ up) :
    debt θ up (step M up c) < debt θ up c := by
  unfold predict at hwrong
  unfold debt step
  cases up with
  | true =>
    have hlow : ¬θ ≤ c := by simpa using hwrong
    simp only [if_true]
    omega
  | false =>
    have hhigh : θ ≤ c := by simpa using hwrong
    simp only [Bool.false_eq_true, if_false]
    omega

end SaturatingCounter
