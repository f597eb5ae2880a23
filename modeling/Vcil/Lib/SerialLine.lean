import Mathlib.Data.List.Chain
import Mathlib.Order.Basic
import Vcil.Lib.Clocked

/-!
# Words on a serial line

A line rests high.  Each word is sent as a frame, a finite sequence of levels that begins with a
low one; between frames the line is high for some time, its gap.

* `wave frame fs`: the levels of a sequence of gaps and words;
* `Conveys frame stop line words`: `line` shows the words in order, the last of them perhaps not
  completely, with at least `stop` clocks of high level after every frame;
* `schedule d c ss`: the gaps that put words of frame length `d` at given clocks on a line free
  from clock `c` on.
-/

namespace SerialLine

variable {β : Type*} (frame : β → List Bool)

/-- Each word of `fs` after its gap. -/
def wave (fs : List (ℕ × β)) : List Bool :=
  fs.flatMap fun f => List.replicate f.1 true ++ frame f.2

/-- `line` is the begin of a wave of `words` in which every word but the last is complete. -/
def Conveys (stop : ℕ) (line : List Bool) (words : List β) : Prop :=
  ∃ fs g, fs.map Prod.snd = words ∧ (∀ f ∈ fs.tail, stop ≤ f.1) ∧
    line <+: wave frame fs ++ List.replicate g true ∧ wave frame fs.dropLast <+: line

@[simp] theorem wave_nil : wave frame [] = [] := rfl

theorem wave_cons (f : ℕ × β) (fs : List (ℕ × β)) :
    wave frame (f :: fs) = List.replicate f.1 true ++ frame f.2 ++ wave frame fs :=
  List.flatMap_cons

theorem wave_concat (fs : List (ℕ × β)) (f : ℕ × β) :
    wave frame (fs ++ [f]) = wave frame fs ++ (List.replicate f.1 true ++ frame f.2) := by
  simp [wave]

/-! ### Schedules -/

/-- The gaps before words whose frames, each `d` clocks long, begin at given clocks. -/
def schedule (d c : ℕ) : List (ℕ × β) → List (ℕ × β)
  | [] => []
  | (s, w) :: ss => (s - c, w) :: schedule d (s + d) ss

/-- The clock from which the line is free again. -/
def freeFrom (d c : ℕ) : List (ℕ × β) → ℕ
  | [] => c
  | (s, _) :: ss => freeFrom d (s + d) ss

section Schedule

variable {d c : ℕ}

theorem map_snd_schedule (ss : List (ℕ × β)) :
    (schedule d c ss).map Prod.snd = ss.map Prod.snd := by
  induction ss generalizing c with
  | nil => rfl
  | cons s ss ih => exact congrArg (s.2 :: ·) ih

theorem schedule_concat (ss : List (ℕ × β)) (s : ℕ) (w : β) :
    schedule d c (ss ++ [(s, w)]) = schedule d c ss ++ [(s - freeFrom d c ss, w)] := by
  induction ss generalizing c with
  | nil => rfl
  | cons s' ss ih => exact congrArg ((s'.1 - c, s'.2) :: ·) ih

theorem freeFrom_concat (ss : List (ℕ × β)) (s : ℕ) (w : β) :
    freeFrom d c (ss ++ [(s, w)]) = s + d := by
  induction ss generalizing c with
  | nil => rfl
  | cons s' ss ih => exact ih

/-- The gaps after the first are the time between the frames. -/
theorem schedule_gaps {stop : ℕ} (hstop : 0 < stop) (ss : List (ℕ × β)) :
    (∀ f ∈ (schedule d c ss).tail, stop ≤ f.1) ↔
      ss.IsChain fun a b => a.1 + (d + stop) ≤ b.1 := by
  induction ss generalizing c with
  | nil => simp [schedule]
  | cons s ss ih =>
    cases ss with
    | nil => simp [schedule]
    | cons s' ss =>
      have hgap : stop ≤ s'.1 - (s.1 + d) ↔ s.1 + (d + stop) ≤ s'.1 := by omega
      rw [List.isChain_cons_cons, ← hgap, ← ih (c := s.1 + d)]
      exact List.forall_mem_cons

end Schedule

/-! ### Reading a line -/

section Reading

variable {frame}

theorem gap_eq {g g' : ℕ} {x y : List Bool}
    (h : List.replicate g true ++ false :: x <+: List.replicate g' true ++ false :: y) :
    g = g' ∧ x <+: y := by
  induction g generalizing g' with
  | zero =>
    cases g' with
    | zero => exact ⟨rfl, (List.prefix_cons_inj false).1 h⟩
    | succ g' => exact Bool.noConfusion (List.cons_prefix_cons.1 h).1
  | succ g ih =>
    cases g' with
    | zero => exact Bool.noConfusion (List.cons_prefix_cons.1 h).1
    | succ g' =>
      obtain ⟨rfl, hxy⟩ := ih (List.cons_prefix_cons.1 h).2
      exact ⟨rfl, hxy⟩

/-- A line that shows complete frames and the begin of one more can be read in one way only. -/
theorem wave_unique (hframe : ∀ w, ∃ l, frame w = false :: l) {fs fs' : List (ℕ × β)} {g k : ℕ}
    {w : β} {x : List Bool} (hwords : fs'.map Prod.snd = fs.map Prod.snd ++ [w])
    (h : wave frame fs ++ (List.replicate g true ++ false :: x) <+:
      wave frame fs' ++ List.replicate k true) :
    fs' = fs ++ [(g, w)] := by
  induction fs generalizing fs' with
  | nil =>
    obtain ⟨⟨a, v⟩, rfl, hv⟩ := List.map_eq_singleton_iff.1 hwords
    obtain ⟨l, hl⟩ := hframe v
    rw [wave_cons, hl, wave_nil, List.append_nil, List.nil_append, List.append_assoc] at h
    rw [(gap_eq h).1, ← hv]
    rfl
  | cons f fs ih =>
    obtain ⟨⟨a, v⟩, fs₁, rfl, hv, hrest⟩ := List.map_eq_cons_iff.1 hwords
    obtain rfl : v = f.2 := hv
    obtain ⟨l, hl⟩ := hframe f.2
    rw [wave_cons, wave_cons, hl] at h
    simp only [List.append_assoc, List.cons_append] at h
    obtain ⟨hgap, htail⟩ := gap_eq h
    rw [List.prefix_append_right_inj] at htail
    rw [ih hrest htail, ← hgap]
    rfl

end Reading

end SerialLine
