import Mathlib.Data.List.Nodup
import Mathlib.Order.Lattice
import Mathlib.Tactic.SplitIfs
import Mathlib.Data.Int.Order.Basic

/-!
# Countdowns

A countdown is a key with the time left until it is due.  A list of countdowns that ages with
every step says the same as a list of absolute due times beside a clock.

* `age n es`: `n` time units later, the countdowns that are due dropped;
* `remaining now ds`: the countdowns of the due times `ds` at time `now`;
* `age_remaining`: the two agree, whatever the steps in which the time passes;
* `Tracks now due es`: `es` holds exactly the keys with a due time after `now`, each once.
-/

/-- Something that is due when `latency` time units have passed. -/
structure Countdown (κ : Type*) where
  key : κ
  latency : ℤ
  deriving DecidableEq, Repr

namespace Countdown

variable {κ : Type*}

/-- The countdown `n` time units later, unless it is due by then. -/
def later (n : ℤ) (e : Countdown κ) : Option (Countdown κ) :=
  if 0 < e.latency - n then some ⟨e.key, e.latency - n⟩ else none

/-- The countdowns `n` time units later. -/
def age (n : ℤ) (es : List (Countdown κ)) : List (Countdown κ) := es.filterMap (later n)

theorem age_cons (n : ℤ) (e : Countdown κ) (es : List (Countdown κ)) :
    age n (e :: es) =
      if 0 < e.latency - n then ⟨e.key, e.latency - n⟩ :: age n es else age n es := by
  rw [age, List.filterMap_cons, later]
  split_ifs <;> rfl

theorem mem_age {n : ℤ} {es : List (Countdown κ)} {k : κ} {l : ℤ} :
    (⟨k, l⟩ : Countdown κ) ∈ age n es ↔ 0 < l ∧ (⟨k, l + n⟩ : Countdown κ) ∈ es := by
  rw [age, List.mem_filterMap]
  constructor
  · rintro ⟨⟨k', l'⟩, hmem, h⟩
    rw [later] at h
    split at h
    · next hpos =>
      obtain ⟨rfl, rfl⟩ : k' = k ∧ l' - n = l := by simpa using h
      rw [Int.sub_add_cancel]
      exact ⟨hpos, hmem⟩
    · cases h
  · rintro ⟨hpos, hmem⟩
    refine ⟨_, hmem, ?_⟩
    rw [later, if_pos (by simp only; omega)]
    simp

theorem nodup_age (n : ℤ) {es : List (Countdown κ)} (h : (es.map key).Nodup) :
    ((age n es).map key).Nodup := by
  refine h.sublist ?_
  induction es with
  | nil => exact List.Sublist.slnil
  | cons e es ih =>
    have ih := ih (List.nodup_cons.1 h).2
    rw [age_cons]
    split_ifs
    · exact ih.cons_cons _
    · exact ih.cons _

/-! ### Due times -/

/-- The countdowns of the things of `ds` that are not due at time `now`. -/
def remaining (now : ℤ) (ds : List (κ × ℤ)) : List (Countdown κ) :=
  ds.filterMap fun d => if now < d.2 then some ⟨d.1, d.2 - now⟩ else none

theorem age_remaining (now : ℤ) {n : ℤ} (hn : 0 ≤ n) (ds : List (κ × ℤ)) :
    age n (remaining now ds) = remaining (now + n) ds := by
  rw [age, remaining, remaining, List.filterMap_filterMap]
  congr 1
  funext d
  by_cases h : now + n < d.2
  · rw [if_pos (by omega), if_pos h, Option.bind_some, later, if_pos (by simp only; omega)]
    simp only [Option.some.injEq, mk.injEq, true_and]
    omega
  · rw [if_neg h]
    split
    · rw [Option.bind_some, later, if_neg (by simp only; omega)]
    · rfl

theorem mem_remaining {now : ℤ} {ds : List (κ × ℤ)} {e : Countdown κ} :
    e ∈ remaining now ds ↔ ∃ t, (e.key, t) ∈ ds ∧ now < t ∧ e.latency = t - now := by
  rw [remaining, List.mem_filterMap]
  constructor
  · rintro ⟨⟨k, t⟩, hmem, h⟩
    split at h
    · next hlt =>
      obtain rfl := Option.some.inj h
      exact ⟨t, hmem, hlt, rfl⟩
    · cases h
  · rintro ⟨t, hmem, hlt, hl⟩
    refine ⟨_, hmem, ?_⟩
    rw [if_pos hlt, ← hl]

/-- `es` holds the keys that are not due at time `now`, each once with the time left. -/
structure Tracks (now : ℤ) (due : κ → ℤ) (es : List (Countdown κ)) : Prop where
  nodup : (es.map key).Nodup
  mem : ∀ k l, (⟨k, l⟩ : Countdown κ) ∈ es ↔ 0 < l ∧ l = due k - now

namespace Tracks

variable {now : ℤ} {due : κ → ℤ} {es : List (Countdown κ)}

theorem nil (h : ∀ k, due k ≤ now) : Tracks now due [] := by
  refine ⟨List.nodup_nil, fun k l => ?_⟩
  have := h k
  simp only [List.not_mem_nil, false_iff]
  omega

theorem age (h : Tracks now due es) {n : ℤ} (hn : 0 ≤ n) :
    Tracks (now + n) due (Countdown.age n es) := by
  refine ⟨nodup_age n h.nodup, fun k l => ?_⟩
  rw [mem_age, h.mem]
  omega

theorem latency_pos (h : Tracks now due es) : ∀ e ∈ es, 0 < e.latency :=
  fun e he => ((h.mem e.key e.latency).1 he).1

/-- A key that is due has no countdown. -/
theorem not_mem (h : Tracks now due es) {k : κ} (hk : due k ≤ now) : ∀ e ∈ es, e.key ≠ k := by
  rintro e he rfl
  obtain ⟨hpos, heq⟩ := (h.mem e.key e.latency).1 he
  omega

theorem insert [DecidableEq κ] (h : Tracks now due es) {k : κ} (hk : due k ≤ now) {l : ℤ}
    (hl : 0 < l) : Tracks now (Function.update due k (now + l)) (es ++ [⟨k, l⟩]) := by
  have hnew := h.not_mem hk
  refine ⟨?_, fun k' l' => ?_⟩
  · rw [List.map_append, List.nodup_append]
    refine ⟨h.nodup, List.nodup_singleton _, ?_⟩
    intro a ha b hb
    obtain ⟨e, he, rfl⟩ := List.mem_map.1 ha
    obtain rfl : b = k := by simpa using hb
    exact hnew e he
  · rw [List.mem_append, List.mem_singleton, mk.injEq]
    by_cases hkk : k' = k
    · subst hkk
      have : (⟨k', l'⟩ : Countdown κ) ∉ es := fun hmem => hnew _ hmem rfl
      simp only [this, false_or, true_and, Function.update_self]
      omega
    · rw [Function.update_of_ne hkk, h.mem]
      simp [hkk]

end Tracks

end Countdown
