import Mathlib.Data.List.Nodup
import Mathlib.Data.List.Induction
import Mathlib.Data.List.Perm.Subperm

/-!
# Recency

The distinct elements of a history in the order of their last use, which a cache goes by that evicts
the least recently used of its entries.

* `order h`: the elements of `h`, the most recently used first;
* `order_cons`: an element used before all others is the last one, or makes no difference;
* `order_map`: the order does not depend on the names of the elements;
* `Ways a b l`: the first two of `l`, as two entries that may still be equal keep them.
-/

namespace Recency

variable {α : Type*} [DecidableEq α]

/-- `x` is used, and comes to the front. -/
def touch (l : List α) (x : α) : List α := x :: l.erase x

/-- The elements of a history, which is oldest first, the most recently used first. -/
def order (h : List α) : List α := h.foldl touch []

@[simp] theorem order_nil : order ([] : List α) = [] := rfl

@[simp] theorem order_concat (h : List α) (x : α) : order (h ++ [x]) = touch (order h) x := by
  rw [order, List.foldl_append]
  rfl

theorem mem_order {h : List α} {x : α} : x ∈ order h ↔ x ∈ h := by
  induction h using List.reverseRecOn with
  | nil => rfl
  | append_singleton h y ih =>
    rw [order_concat, touch, List.mem_cons, List.mem_append, List.mem_singleton]
    by_cases hxy : x = y
    · simp [hxy]
    · rw [List.mem_erase_of_ne hxy, ih]
      tauto

theorem nodup_order (h : List α) : (order h).Nodup := by
  induction h using List.reverseRecOn with
  | nil => exact List.nodup_nil
  | append_singleton h y ih =>
    rw [order_concat, touch, List.nodup_cons]
    exact ⟨ih.not_mem_erase, ih.erase y⟩

theorem order_cons (v : α) (h : List α) :
    order (v :: h) = if v ∈ h then order h else order h ++ [v] := by
  induction h using List.reverseRecOn with
  | nil => rfl
  | append_singleton h x ih =>
    rw [← List.cons_append, order_concat, ih, order_concat]
    by_cases hv : v ∈ h
    · rw [if_pos hv, if_pos (List.mem_append_left _ hv)]
    · have hv' : v ∉ order h := fun hmem => hv (mem_order.1 hmem)
      rw [if_neg hv]
      by_cases hx : x = v
      · subst hx
        rw [if_pos (by simp), touch, touch, List.erase_append_right _ hv', List.erase_of_not_mem hv']
        simp
      · have hvx : v ∉ h ++ [x] := by simp [hv, Ne.symm hx]
        have herase : (order h ++ [v]).erase x = (order h).erase x ++ [v] := by
          by_cases hmem : x ∈ order h
          · exact List.erase_append_left _ hmem
          · rw [List.erase_append_right _ hmem, List.erase_of_not_mem hmem,
              List.erase_of_not_mem (by simpa using hx)]
        rw [if_neg hvx, touch, touch, herase, List.cons_append]

/-- Renaming the elements renames the order, if it keeps the elements of the history apart. -/
theorem order_map {β : Type*} [DecidableEq β] {f : α → β} {h : List α}
    (hf : ∀ x ∈ h, ∀ y ∈ h, f x = f y → x = y) : order (h.map f) = (order h).map f := by
  induction h using List.reverseRecOn with
  | nil => rfl
  | append_singleton h x ih =>
    have ih := ih fun y hy z hz => hf y (List.mem_append_left _ hy) z (List.mem_append_left _ hz)
    have hnodup : ((order h).map f).Nodup := ih ▸ nodup_order _
    rw [List.map_append, List.map_singleton, order_concat, order_concat, ih, touch, touch,
      List.map_cons, hnodup.erase_eq_filter, (nodup_order h).erase_eq_filter, List.filter_map]
    congr 2
    refine List.filter_congr fun y hy => ?_
    have hxy : f y = f x ↔ y = x :=
      ⟨hf y (List.mem_append_left _ (mem_order.1 hy)) x (by simp), congrArg f⟩
    simp only [Function.comp, bne, hxy, beq_eq_decide]

/-- An element used before all others is among the last two if it has not been used since, and less
than two others have been. -/
theorem mem_take_order_cons {v x : α} {h : List α} : x ∈ (order (v :: h)).take 2 ↔
    x ∈ (order h).take 2 ∨ x = v ∧ v ∉ h ∧ (order h).length < 2 := by
  rw [order_cons]
  by_cases hv : v ∈ h
  · simp [hv]
  · rw [if_neg hv]
    by_cases hlen : (order h).length < 2
    · rw [List.take_of_length_le (by simp; omega), List.take_of_length_le (by omega),
        List.mem_append, List.mem_singleton]
      simp [hv, hlen]
    · rw [List.take_append_of_le_length (by omega)]
      simp [hlen]

/-- Two elements have been used exactly if the order has two. -/
theorem two_le_length_order {h : List α} :
    2 ≤ (order h).length ↔ ∃ x ∈ h, ∃ y ∈ h, x ≠ y := by
  have hnodup := nodup_order h
  constructor
  · intro hlen
    refine ⟨(order h)[0], mem_order.1 (List.getElem_mem _), (order h)[1],
      mem_order.1 (List.getElem_mem _), ?_⟩
    intro heq
    exact absurd ((List.Nodup.getElem_inj_iff hnodup).1 heq) (by decide)
  · rintro ⟨x, hx, y, hy, hxy⟩
    have hsub : [x, y] ⊆ order h := by
      intro z hz
      rcases List.mem_pair.1 hz with rfl | rfl
      · exact mem_order.2 hx
      · exact mem_order.2 hy
    exact (List.subperm_of_subset (by simpa using hxy) hsub).length_le

/-! ### Two entries -/

/-- `a` is the first of `l` and `b` the second; equal ones stand for a list with one element. -/
def Ways (a b : α) (l : List α) : Prop := l.take 2 = if a = b then [a] else [a, b]

section Ways

variable {a b x : α} {l : List α}

theorem Ways.mem (h : Ways a b l) : x ∈ l.take 2 ↔ x = a ∨ x = b := by
  rw [h]
  split_ifs with hab
  · simp [hab]
  · simp

theorem Ways.eq_cons (h : Ways a b l) : ∃ rest, l = a :: rest ∧ (a ≠ b → ∃ rest', rest = b :: rest') := by
  unfold Ways at h
  match l, h with
  | [], h => split_ifs at h <;> simp at h
  | [c], h =>
    split_ifs at h with hab
    · exact ⟨[], by simpa using h, fun hne => absurd hab hne⟩
    · simp at h
  | c :: d :: rest, h =>
    split_ifs at h with hab
    · simp at h
    · obtain ⟨rfl, rfl⟩ : c = a ∧ d = b := by simpa using h
      exact ⟨d :: rest, rfl, fun _ => ⟨rest, rfl⟩⟩

/-- The element used last is used again. -/
theorem Ways.first (h : Ways a b l) : Ways a b (touch l a) := by
  obtain ⟨rest, rfl, -⟩ := h.eq_cons
  rwa [touch, List.erase_cons_head]

/-- The other one is used. -/
theorem Ways.second (h : Ways a b l) (hab : a ≠ b) : Ways b a (touch l b) := by
  obtain ⟨rest, rfl, hrest⟩ := h.eq_cons
  obtain ⟨rest, rfl⟩ := hrest hab
  simp [Ways, touch, hab, Ne.symm hab]

/-- An element that is neither takes the place of the other one. -/
theorem Ways.miss (h : Ways a b l) (hxa : x ≠ a) : Ways x a (touch l x) := by
  obtain ⟨rest, rfl, -⟩ := h.eq_cons
  simp [Ways, touch, hxa, Ne.symm hxa]

end Ways

end Recency
