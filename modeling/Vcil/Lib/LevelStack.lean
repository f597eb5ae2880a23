import Mathlib.Order.Defs.Unbundled

/-!
# A stack kept in one slot for each level

Handlers that can only be interrupted at higher levels need no memory for what they interrupt: one
register for each level is enough, since no two open frames have the same level.

* `Frame`: a level with the value saved there;
* `Holds slots fs`: the levels of `fs` rise towards the top, and the slots hold its values;
* `Holds.keep`, `Holds.pop`, `Holds.push`: how to go on.
-/

namespace LevelStack

variable {L V : Type} [LT L]

/-- A level, and what is saved for it. -/
structure Frame (L V : Type) where
  level : L
  value : V

/-- The frames, the innermost first, and what the slots of their levels hold. -/
structure Holds (slots : L → V) (fs : List (Frame L V)) : Prop where
  rises : fs.Pairwise fun f g => g.level < f.level
  saved : ∀ f ∈ fs, slots f.level = f.value

variable {slots slots' : L → V} {f : Frame L V} {fs : List (Frame L V)}

theorem Holds.nil (slots : L → V) : Holds slots [] := by
  constructor
  · exact List.Pairwise.nil
  · intro f hf
    cases hf

/-- The slots of the open frames are left alone. -/
theorem Holds.keep (h : Holds slots fs) (hkeep : ∀ f ∈ fs, slots' f.level = slots f.level) :
    Holds slots' fs := by
  constructor
  · exact h.rises
  · intro f hf
    rw [hkeep f hf]
    exact h.saved f hf

/-- A frame above the innermost one is above them all. -/
theorem Holds.below [IsTrans L (· < ·)] {l : L} (h : Holds slots fs)
    (hl : ∀ f ∈ fs.head?, f.level < l) : ∀ f ∈ fs, f.level < l := by
  intro f hf
  cases fs with
  | nil => cases hf
  | cons g gs =>
    have hg : g.level < l := hl g rfl
    rcases List.mem_cons.1 hf with rfl | hf
    · exact hg
    · exact trans_of (· < ·) ((List.pairwise_cons.1 h.rises).1 f hf) hg

variable [Std.Irrefl fun l l' : L => l < l']

/-- The innermost frame is closed; its slot is free. -/
theorem Holds.pop (h : Holds slots (f :: fs))
    (hkeep : ∀ l, l ≠ f.level → slots' l = slots l) : Holds slots' fs := by
  obtain ⟨hbelow, hrises⟩ := List.pairwise_cons.1 h.rises
  constructor
  · exact hrises
  · intro g hg
    have hne : g.level ≠ f.level := by
      intro heq
      exact irrefl_of (· < ·) f.level (heq ▸ hbelow g hg)
    rw [hkeep g.level hne]
    exact h.saved g (List.mem_cons_of_mem f hg)

/-- A frame is opened above the innermost one; only its slot is written. -/
theorem Holds.push [IsTrans L (· < ·)] {l : L} {v : V} (h : Holds slots fs)
    (hl : ∀ f ∈ fs.head?, f.level < l) (hnew : slots' l = v)
    (hkeep : ∀ l', l' ≠ l → slots' l' = slots l') : Holds slots' (⟨l, v⟩ :: fs) := by
  have hbelow := h.below hl
  constructor
  · exact List.pairwise_cons.2 ⟨hbelow, h.rises⟩
  · intro f hf
    rcases List.mem_cons.1 hf with rfl | hf
    · exact hnew
    · have hne : f.level ≠ l := by
        intro heq
        exact irrefl_of (· < ·) l (heq ▸ hbelow f hf)
      rw [hkeep f.level hne]
      exact h.saved f hf

end LevelStack
