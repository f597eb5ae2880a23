import Mathlib.Data.List.Infix

/-!
# Bounded stacks

A stack that has room for `n` entries and forgets the oldest one when it is full.  Entries are listed
oldest first, so that what is left of an unbounded stack is a suffix of it.

* `push`: an entry more, the oldest dropped where there is no room;
* `Window n q s`: `q` is the newest part of `s`, at most `n` entries;
* `Window.push`, `Window.pop`: it stays so, and what is popped is the newest entry of `s`;
* `suffix_push`, `suffix_pop`: entries above which there are fewer than `n` are kept.
-/

namespace BoundedStack

variable {α : Type*} {n : ℕ} {q s t : List α} {x : α}

/-- The stack keeps the last `n` elements; the last is on top. -/
def push (n : ℕ) (x : α) (q : List α) : List α :=
  if n < (q ++ [x]).length then (q ++ [x]).tail else q ++ [x]

theorem push_suffix (n : ℕ) (x : α) (q : List α) : push n x q <:+ q ++ [x] := by
  unfold push
  split
  · exact List.tail_suffix _
  · exact List.suffix_refl _

theorem length_push_le (h : q.length ≤ n) : (push n x q).length ≤ n := by
  unfold push
  split
  · rw [List.length_tail, List.length_append, List.length_singleton]
    exact h
  · next hroom => exact Nat.le_of_not_lt hroom

theorem suffix_append_singleton (h : q <:+ s) : q ++ [x] <:+ s ++ [x] := by
  obtain ⟨r, rfl⟩ := h
  exact ⟨r, List.append_assoc r q [x] |>.symm⟩

/-- A nonempty suffix ends as the list does. -/
theorem suffix_concat (h : q <:+ s ++ [x]) : q = [] ∨ ∃ t, q = t ++ [x] ∧ t <:+ s := by
  rwa [List.suffix_concat_iff] at h

/-! ### The newest part -/

/-- `q` is the newest part of `s`, at most `n` entries. -/
structure Window (n : ℕ) (q s : List α) : Prop where
  suffix : q <:+ s
  length : q.length ≤ n

theorem Window.nil : Window n ([] : List α) s := ⟨List.nil_suffix, Nat.zero_le n⟩

theorem Window.push (h : Window n q s) (x : α) : Window n (push n x q) (s ++ [x]) :=
  ⟨(push_suffix n x q).trans (suffix_append_singleton h.suffix), length_push_le h.length⟩

theorem Window.pop (h : Window n q (s ++ [x])) :
    (q = [] ∨ q.getLast? = some x) ∧ Window n q.dropLast s := by
  rcases suffix_concat h.suffix with rfl | ⟨t, rfl, ht⟩
  · exact ⟨.inl rfl, .nil⟩
  · have hlen := h.length
    rw [List.length_append, List.length_singleton] at hlen
    rw [List.dropLast_concat]
    exact ⟨.inr List.getLast?_concat, ht, by omega⟩

/-! ### Entries that are kept -/

theorem suffix_push (h : t <:+ q) (ht : t.length < n) (x : α) : t ++ [x] <:+ push n x q := by
  refine List.suffix_of_suffix_length_le (suffix_append_singleton h) (push_suffix n x q) ?_
  have hlen := h.length_le
  unfold push
  split
  · next hfull =>
    rw [List.length_append, List.length_singleton] at hfull
    rw [List.length_tail, List.length_append, List.length_append, List.length_singleton]
    omega
  · rw [List.length_append, List.length_append]
    omega

theorem suffix_pop (h : t ++ [x] <:+ q) : q.getLast? = some x ∧ t <:+ q.dropLast := by
  obtain ⟨r, rfl⟩ := h
  rw [← List.append_assoc]
  exact ⟨List.getLast?_concat, by rw [List.dropLast_concat]; exact List.suffix_append r t⟩

end BoundedStack
