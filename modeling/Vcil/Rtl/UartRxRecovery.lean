import Vcil.Rtl.UartRxFrames

/-!
# Recovery of `uart_rx`

Break conditions, a sender at another speed or a cable that is plugged in during a frame leave the
receiver anywhere in a frame.  A frame of high level brings it back.

* `free_again`: it then looks for a start bit, whatever the line has done before;
* `ready_again`: a few clocks later it is ready for one;
* `misread_le`: until then it has taken no more words off the line than frames fit there;
* `recovers`: from then on it shows the words that are sent.
-/

namespace Vcil.Rtl.UartRx

open Clocked

variable {p : UartParams} {s : UartRx p} {line : ℕ → Bool}

/-- Five low levels lie before the line goes high. -/
theorem lt_of_low {N T : ℕ} (hhigh : ∀ k, N ≤ k → line k = true) (hlate : 7 ≤ T)
    (hlow : ∀ k < 5, line (T - 7 + k) = false) : T < N + 3 := by
  by_contra hge
  have hlast := hlow 4 (by decide)
  rw [hhigh _ (by omega)] at hlast
  cases hlast

/-- In a list whose members keep a distance, the last is far from the first. -/
theorem span_lt {α : Type} {d bound : ℕ} {r : ℕ × α} {rs : List (ℕ × α)}
    (hchain : (r :: rs).IsChain fun a b => a.1 + d ≤ b.1) (hlt : ∀ x ∈ r :: rs, x.1 < bound) :
    r.1 + rs.length * d < bound := by
  induction rs generalizing r with
  | nil => simpa using hlt r List.mem_cons_self
  | cons r' rs ih =>
    obtain ⟨hle, hrest⟩ := List.isChain_cons_cons.1 hchain
    have hend := ih hrest fun x hx => hlt x (List.mem_cons_of_mem _ hx)
    rw [List.length_cons, Nat.succ_mul]
    omega

section Again

variable (hw0 : 0 < p.dataWidth) (hw : p.dataWidth < 16) (hC : 6 ≤ p.cycle)
  (hC' : p.cycle ≤ 65536) (hon : p.parityOn = 0) (hs : Ready s) {N : ℕ}
  (hhigh : ∀ k, N ≤ k → line k = true)
include hw0 hw hC hC' hon hs hhigh

/-- No frame that has begun before the line went high is left. -/
theorem free_again :
    Armed (s.after line (N + (p.dataWidth + 2) * p.cycle + 3)) ∨
      Finished (s.after line (N + (p.dataWidth + 2) * p.cycle + 3)) := by
  have hphase : Phase s line (N + (p.dataWidth + 2) * p.cycle + 3) :=
    phase_after hw0 hw hC hC' hon hs _
  cases hphase with
  | free rs hrs hshown hlast hstate => exact hstate
  | busy rs hrs T hT hshown hlast hlate hlow hstate hend =>
    exfalso
    have hT : T < N + 3 := lt_of_low hhigh hlate hlow
    have hframe : (p.dataWidth + 2) * p.cycle = p.dataWidth * p.cycle + 2 * p.cycle :=
      Nat.add_mul _ _ _
    have habort : (if line (T + p.cycle / 2 - 1) then p.cycle / 2 + 1
        else (p.dataWidth + 2) * p.cycle) ≤ (p.dataWidth + 2) * p.cycle := by
      split_ifs
      · omega
      · exact Nat.le_refl _
    omega

theorem ready_again {n : ℕ} (hn : N + (p.dataWidth + 2) * p.cycle + 6 ≤ n) :
    Ready (s.after line n) := by
  have hframe : 2 * p.cycle ≤ (p.dataWidth + 2) * p.cycle :=
    Nat.mul_le_mul_right _ (Nat.le_add_left 2 _)
  have hrest := at_rest (n := n - 1) hC (by omega) (free_again hw0 hw hC hC' hon hs hhigh)
    (fun k hk => hhigh k (by omega)) (by omega)
  obtain ⟨m, rfl⟩ : ∃ m, n = m + 6 := ⟨n - 6, by omega⟩
  exact hrest.1.ready fun k _ => hhigh _ (by omega)

/-- Each word takes the time of a frame and two clocks. -/
theorem misread_le (M : ℕ) : (s.shown line M).length * ((p.dataWidth + 2) * p.cycle + 2) ≤
    N + (p.dataWidth + 2) * p.cycle := by
  obtain ⟨rs, hrs, hshown⟩ := readings line hw0 hw hC hC' hon hs M
  rw [hshown, List.length_map]
  cases rs with
  | nil => simp
  | cons r rs =>
    have hend := span_lt hrs.apart fun x hx =>
      lt_of_low hhigh (hrs.reading x hx).late (hrs.reading x hx).low
    have hlate := (hrs.reading r List.mem_cons_self).late
    rw [List.length_cons, Nat.succ_mul]
    omega

end Again

section Recovers

variable {B : ℕ} (hw0 : 0 < p.dataWidth) (hw : p.dataWidth < 16) (hC : 6 ≤ p.cycle)
  (hC' : p.cycle ≤ 65536) (hon : p.parityOn = 0)
include hw0 hw hC hC' hon

/-- Whatever the line has done, after a frame of high level the receiver shows the words that are
sent, in order and with nothing between them.  Before, it has misread some of what the line did. -/
theorem recovers (hs : Ready s) (noise : List Bool) {high : ℕ}
    (hhigh : (p.dataWidth + 2) * p.cycle + 6 ≤ high) (frames : List (BitVec p.dataWidth × ℕ))
    (hframes : ∀ f ∈ frames, Timing p B f.2) :
    ∃ misread : List (BitVec p.dataWidth),
      misread.length * ((p.dataWidth + 2) * p.cycle + 2) ≤
        noise.length + (p.dataWidth + 2) * p.cycle ∧
      s.pulses (noise ++ List.replicate high true ++ frames.flatMap fun f => frame B f.1 f.2) =
        misread ++ frames.map Prod.fst := by
  set before := noise ++ List.replicate high true with hbefore
  have hline : ∀ k, noise.length ≤ k → extend true before k = true := fun k hk => by
    obtain ⟨d, rfl⟩ := Nat.exists_eq_add_of_le hk
    rw [hbefore, extend_append_right, extend_replicate]
  have hlen : before.length = noise.length + high := by simp [hbefore]
  have hready : Ready (run step s before) := by
    have hagain := ready_again hw0 hw hC hC' hon hs hline (n := before.length) (by omega)
    rw [after, trace_eq_run, history_extend] at hagain
    exact hagain
  refine ⟨s.pulses before, ?_, ?_⟩
  · rw [pulses_eq_shown]
    exact misread_le hw0 hw hC hC' hon hs hline before.length
  · rw [pulses, emits_append]
    exact congrArg (_ ++ ·) (frames_pulses hon hw0 hw hC hC' hready frames hframes)

end Recovers

/-- The receiver of eight bits, and a sender with two stop bits and a skew of about one twentieth
that begins ten bit times after whatever was on the line before. -/
theorem recovers_skewed (C B : ℕ) (hC : 20 ≤ C) (hC' : C ≤ 65536)
    (hB : 20 * |(B : ℤ) - C| ≤ C - 16) (parityType : ℕ) (noise : List Bool) {high : ℕ}
    (hhigh : 10 * C + 6 ≤ high) (frames : List (BitVec 8 × ℕ)) :
    ∃ misread : List (BitVec 8), misread.length * (10 * C + 2) ≤ noise.length + 10 * C ∧
      (reset : UartRx ⟨C, 8, 0, parityType⟩).pulses
          (noise ++ List.replicate high true ++ frames.flatMap fun f => frame B f.1 (2 * B + f.2)) =
        misread ++ frames.map Prod.fst := by
  have hall := recovers (p := ⟨C, 8, 0, parityType⟩) (B := B) (Nat.succ_pos 7)
    (show 8 < 16 by decide) (show 6 ≤ C by omega) hC' rfl ready_reset noise hhigh
    (frames.map fun f => (f.1, 2 * B + f.2)) fun f hf => by
      obtain ⟨g, -, rfl⟩ := List.mem_map.1 hf
      exact timing_skewed hC hB g.2 parityType
  rw [List.flatMap_map, List.map_map] at hall
  exact hall

/-- A low level of three thousand clocks, and two bytes a while after it. -/
theorem recovers_skewed_break :
    ∃ misread : List (BitVec 8), misread.length * (10 * 868 + 2) ≤ 3000 + 10 * 868 ∧
      (reset : UartRx ⟨868, 8, 0, 0⟩).pulses
          (List.replicate 3000 false ++ List.replicate 9000 true ++
            [(0x7b, 0), (0x73, 40)].flatMap fun f : BitVec 8 × ℕ =>
              frame 826 f.1 (2 * 826 + f.2)) = misread ++ [0x7b, 0x73] := by
  have hall := recovers_skewed 868 826 (by decide) (by decide) (by decide) 0
    (List.replicate 3000 false) (show 10 * 868 + 6 ≤ 9000 by decide) [(0x7b, 0), (0x73, 40)]
  rw [List.length_replicate] at hall
  exact hall

end Vcil.Rtl.UartRx
