import Mathlib.Tactic.IntervalCases
import Vcil.Rtl.UartRxLine

/-!
# Frames received by `uart_rx`

A frame keeps each of its levels, the low start bit and the data bits from the least significant
on, for a number of clocks, and then stays high.

* `frame B b idle`: the line level by level, with bit time `B`;
* `Timing B idle`: what the sampling points and the re-arming need of the two bit times;
* `frame_pulses`: one frame is taken in as one byte, and leaves the receiver armed again;
* `decodes_skewed`: the receiver of eight bits tolerates a skew of about one twentieth.
-/

namespace Vcil.Rtl.UartRx

open Clocked

/-- A frame of bit time `B`: start bit, data bits, and `idle` clocks of high level. -/
def frame {w : ℕ} (B : ℕ) (b : BitVec w) (idle : ℕ) : List Bool :=
  hold B (false :: List.ofFn fun i : Fin w => b.getLsbD i) ++ List.replicate idle true

variable {p : UartParams} {s : UartRx p}

/-! ### One frame -/

/-- What the receiver needs of the bit time `B` and of the high level after the data bits: each
sampling point lies in its bit, the line is high again when the receiver is back in
`STATE_IDLE`, and stays so until the detector is filled. -/
structure Timing (p : UartParams) (B idle : ℕ) : Prop where
  sample : ∀ j ≤ p.dataWidth, j * B ≤ 6 + j * p.cycle + p.cycle / 2 ∧
    6 + j * p.cycle + p.cycle / 2 < (j + 1) * B
  high : (p.dataWidth + 1) * B ≤ 6 + (p.dataWidth + 2) * p.cycle
  rearm : 9 + (p.dataWidth + 2) * p.cycle ≤ (p.dataWidth + 1) * B + idle
  fill : 6 ≤ idle

section Frame

variable {b : BitVec p.dataWidth} {B idle : ℕ}

theorem length_frame : (frame B b idle).length = (p.dataWidth + 1) * B + idle := by
  simp [frame]

theorem getElem?_frame {j k : ℕ} (hj : j ≤ p.dataWidth) (hlo : j * B ≤ k)
    (hhi : k < (j + 1) * B) : (frame B b idle)[k]? = some (cellBit b j) := by
  have hlen : (j + 1) * B ≤ (p.dataWidth + 1) * B := Nat.mul_le_mul_right B (by omega)
  rw [frame, List.getElem?_append_left (by simp; omega), getElem?_hold _ hlo hhi]
  cases j with
  | zero => rfl
  | succ j => simp [cellBit, Nat.lt_of_succ_le hj]

theorem frame_cell {j k : ℕ} (hj : j ≤ p.dataWidth) (hlo : j * B ≤ k) (hhi : k < (j + 1) * B) :
    extend true (frame B b idle) k = cellBit b j := by
  rw [extend, List.getD_eq_getElem?_getD, getElem?_frame hj hlo hhi]
  rfl

theorem frame_high {k : ℕ} (hlo : (p.dataWidth + 1) * B ≤ k) :
    extend true (frame B b idle) k = true := by
  rw [extend, List.getD_eq_getElem?_getD, frame, List.getElem?_append_right (by simpa using hlo),
    List.getElem?_replicate]
  split_ifs <;> rfl

variable (ht : Timing p B idle) (hon : p.parityOn = 0) (hw0 : 0 < p.dataWidth)
  (hw : p.dataWidth < 16) (hC : 6 ≤ p.cycle) (hC' : p.cycle ≤ 65536)
include ht hC

/-- The detector fires in the seventh clock of the frame. -/
theorem detected_frame (h : Ready s) : Detected (s.after (extend true (frame B b idle)) 7) ∧
    s.shown (extend true (frame B b idle)) 7 = [] := by
  obtain ⟨-, hB⟩ := ht.sample 0 (Nat.zero_le _)
  have hnone : ∀ k < 0, extend true (frame B b idle) k = true :=
    fun k hk => absurd hk (Nat.not_lt_zero k)
  obtain ⟨harmed, hbefore⟩ := armed_first h (by omega) hnone
  have hlow : ∀ k < 5, extend true (frame B b idle) (0 + k) = false := fun k hk => by
    rw [Nat.zero_add, frame_cell (Nat.zero_le _) (by omega) (by omega)]
    rfl
  obtain ⟨hD, hsame⟩ := detected_after hlow (Or.inl (harmed _ (Nat.le_refl _)))
  exact ⟨hD, hsame.trans hbefore⟩

omit hC in
theorem reads_frame :
    Reads p (extend true (frame B b idle)) (7 + p.cycle / 2 - 1) b := by
  constructor
  · obtain ⟨hlo, hhi⟩ := ht.sample 0 (Nat.zero_le _)
    rw [frame_cell (Nat.zero_le _) (by omega) (by omega)]
    rfl
  · intro k hk
    obtain ⟨hlo, hhi⟩ := ht.sample (k + 1) hk
    rw [frame_cell (j := k + 1) hk (by omega) (by omega)]
    simp [cellBit]

include hon hw0 hw hC'

/-- The line is high again when the receiver is back in `STATE_IDLE`. -/
theorem rest_frame (h : Ready s) {n : ℕ} (hn : 8 + (p.dataWidth + 2) * p.cycle ≤ n) :
    Armed (s.after (extend true (frame B b idle)) (n + 1)) ∧
      s.shown (extend true (frame B b idle)) n = [b] := by
  have hhigh := ht.high
  have hcells : (p.dataWidth + 2) * p.cycle = (p.dataWidth + 1) * p.cycle + p.cycle := by ring
  obtain ⟨hD, hbefore⟩ := detected_frame (b := b) ht hC h
  have hfinish := finished_after hD hw0 hw hC hC' hon (reads_frame ht)
  have hword := shown_receiving hD hw0 hw hC hC' hon (reads_frame ht) (Nat.le_refl _)
  rw [hbefore, if_pos (by omega)] at hword
  obtain ⟨harmed, hshown⟩ := at_rest hC (M := 7 + (p.dataWidth + 2) * p.cycle + 1) (by omega)
    (Or.inr hfinish) (fun k hk => frame_high (by omega)) (n := n) (by omega)
  exact ⟨harmed, hshown.trans hword⟩

theorem ready_frame (h : Ready s) : Ready (run step s (frame B b idle)) := by
  have hlen : (frame B b idle).length = (p.dataWidth + 1) * B + idle := length_frame
  have hfill := ht.fill
  have hrun : run step s (frame B b idle) =
      s.after (extend true (frame B b idle)) (frame B b idle).length := by
    rw [after, trace_eq_run, history_extend]
  have hrearm := ht.rearm
  obtain ⟨n, hn⟩ : ∃ n, (frame B b idle).length = n + 6 :=
    ⟨(frame B b idle).length - 6, by omega⟩
  have harmed := (rest_frame (b := b) ht hon hw0 hw hC hC' h (n := n + 5) (by omega)).1
  rw [hrun, hn]
  exact harmed.ready fun k _ => frame_high (by omega)

/-- A frame is shown as one byte, in one clock. -/
theorem frame_pulses (h : Ready s) : s.pulses (frame B b idle) = [b] := by
  have hrearm := ht.rearm
  rw [pulses_eq_shown]
  exact (rest_frame ht hon hw0 hw hC hC' h (by rw [length_frame]; omega)).2

omit ht in
/-- Frames one after the other, each with its own time of high level. -/
theorem frames_pulses (h : Ready s) (frames : List (BitVec p.dataWidth × ℕ))
    (hframes : ∀ f ∈ frames, Timing p B f.2) :
    s.pulses (frames.flatMap fun f => frame B f.1 f.2) = frames.map Prod.fst := by
  induction frames generalizing s with
  | nil => rfl
  | cons f frames ih =>
    have hf := hframes f List.mem_cons_self
    have hrest := ih (ready_frame (b := f.1) hf hon hw0 hw hC hC' h)
      fun g hg => hframes g (List.mem_cons_of_mem f hg)
    have hone := frame_pulses (b := f.1) hf hon hw0 hw hC hC' h
    rw [pulses] at hrest hone ⊢
    rw [List.flatMap_cons, emits_append, hone, hrest]
    rfl

end Frame

/-! ### The line at rest -/

theorem ready_high (h : Ready s) (hC : 4 ≤ p.cycle) : Ready (s.step true) := by
  refine ⟨h.wait (by rw [h.flag]; decide) hC, rfl, ?_⟩
  show s.rFlagRcvStart.extractLsb' 0 4 ++ BitVec.ofBool s.syncUartRx = _
  rw [h.flag, h.sync]
  rfl

/-- A line at rest is not taken for a frame. -/
theorem idle_pulses (h : Ready s) (hC : 4 ≤ p.cycle) (n : ℕ) :
    s.pulses (List.replicate n true) = [] ∧ Ready (run step s (List.replicate n true)) := by
  induction n generalizing s with
  | zero => exact ⟨rfl, h⟩
  | succ n ih =>
    obtain ⟨hp, hr⟩ := ih (ready_high h hC)
    have hdone := (ready_high h hC).done
    rw [pulses] at hp ⊢
    rw [List.replicate_succ, emits, hdone, hp]
    exact ⟨rfl, hr⟩

/-- With two stop bits, eight data bits leave room for a skew of about one twentieth. -/
theorem timing_skewed {C B : ℕ} (hC : 20 ≤ C) (hB : 20 * |(B : ℤ) - C| ≤ C - 16) (gap t : ℕ) :
    Timing ⟨C, 8, 0, t⟩ B (2 * B + gap) := by
  obtain ⟨hlo, hhi⟩ := abs_le.1 (show |(B : ℤ) - C| ≤ (C - 16) / 20 by omega)
  refine ⟨?_, ?_, ?_, ?_⟩
  · intro j (hj : j ≤ 8)
    show j * B ≤ 6 + j * C + C / 2 ∧ 6 + j * C + C / 2 < (j + 1) * B
    interval_cases j <;> constructor <;> omega
  · simp only
    omega
  · simp only
    omega
  · omega

/-! ### Main result -/

/-- From reset, over a line at rest and frames of eight data bits and at least two stop bits, the
receiver shows the bytes sent, in order, each for one clock, and nothing else. -/
theorem decodes_skewed (C B : ℕ) (hC : 20 ≤ C) (hC' : C ≤ 65536)
    (hB : 20 * |(B : ℤ) - C| ≤ C - 16) (parityType rest : ℕ) (frames : List (BitVec 8 × ℕ)) :
    (reset : UartRx ⟨C, 8, 0, parityType⟩).pulses
        (List.replicate rest true ++ frames.flatMap fun f => frame B f.1 (2 * B + f.2)) =
      frames.map Prod.fst := by
  obtain ⟨hrest, hready⟩ := idle_pulses (ready_reset (p := ⟨C, 8, 0, parityType⟩))
    (show 4 ≤ C by omega) rest
  have hall := frames_pulses (p := ⟨C, 8, 0, parityType⟩) (B := B) rfl (Nat.succ_pos 7)
    (show 8 < 16 by omega) (show 6 ≤ C by omega) hC' hready
    (frames.map fun f => (f.1, 2 * B + f.2)) ?_
  · rw [List.flatMap_map, List.map_map] at hall
    rw [pulses] at hrest hall ⊢
    rw [emits_append, hrest, hall]
    rfl
  · intro f hf
    obtain ⟨g, -, rfl⟩ := List.mem_map.1 hf
    exact timing_skewed hC hB g.2 parityType

theorem decodes_skewed_two_bytes :
    (reset : UartRx ⟨868, 8, 0, 0⟩).pulses
        (List.replicate 2000 true ++
          [(0x7b, 0), (0x73, 40)].flatMap fun f : BitVec 8 × ℕ =>
            frame 826 f.1 (2 * 826 + f.2)) = [0x7b, 0x73] :=
  decodes_skewed 868 826 (by decide) (by decide) (by decide) 0 2000 [(0x7b, 0), (0x73, 40)]

end Vcil.Rtl.UartRx
