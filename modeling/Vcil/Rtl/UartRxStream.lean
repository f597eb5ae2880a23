import Vcil.Rtl.UartRxFrames

/-!
# Frames back to back

A line without any rest between frames: each has one stop bit, and the next start bit follows at
once.  The receiver of the same bit time takes two clocks longer for a frame than the frame lasts.

* `stream C rest bytes tail`: the line;
* `looking`: while the delay fits into half a bit, the frames are taken in one after the other;
* `not_delivers`: a stream that is too long is not received, whatever its bytes;
* `delivers_iff`: a stream is received exactly when it is short enough for its bit time.
-/

namespace Vcil.Rtl.UartRx

open Clocked

/-- A line at rest, the bytes as frames of exactly ten bit times, and the line at rest again. -/
def stream (C rest : ℕ) (bytes : List (BitVec 8)) (tail : ℕ) : List Bool :=
  List.replicate rest true ++ bytes.flatMap (fun b => frame C b C) ++ List.replicate tail true

/-- The receiver shows the bytes of the stream, in order and each in one clock, and nothing
else. -/
def Delivers (C parityType rest : ℕ) (bytes : List (BitVec 8)) : Prop :=
  ∃ T, ∀ tail, T ≤ tail →
    (reset : UartRx ⟨C, 8, 0, parityType⟩).pulses (stream C rest bytes tail) = bytes

/-! ### The line -/

section Level

variable {C rest : ℕ} {bytes : List (BitVec 8)} {tail : ℕ}

theorem length_frame8 (b : BitVec 8) : (frame C b C).length = 10 * C := by
  rw [length_frame (p := ⟨C, 8, 0, 0⟩)]
  show 9 * C + C = 10 * C
  omega

theorem length_frames :
    (bytes.flatMap fun b => frame C b C).length = bytes.length * (10 * C) := by
  simp [List.length_flatMap, length_frame8]

/-- The level of the stream in clock `rest + k`. -/
theorem extend_stream (k : ℕ) : extend true (stream C rest bytes tail) (rest + k) =
    extend true (bytes.flatMap fun b => frame C b C) k := by
  have hshift := extend_append_right true (List.replicate rest true)
    (bytes.flatMap fun b => frame C b C) k
  rwa [List.length_replicate, ← extend_append_replicate true _ tail] at hshift

/-- Frame `i` of the stream, and the line at rest after the last. -/
theorem extend_frames {i : ℕ} (hi : i < bytes.length) {k : ℕ}
    (hk : k < 10 * C ∨ i + 1 = bytes.length) :
    extend true (bytes.flatMap fun b => frame C b C) (i * (10 * C) + k) =
      extend true (frame C bytes[i] C) k := by
  induction bytes generalizing i with
  | nil => exact absurd hi (Nat.not_lt_zero i)
  | cons b bytes ih =>
    rw [List.flatMap_cons]
    cases i with
    | zero =>
      rw [Nat.zero_mul, Nat.zero_add]
      rcases hk with hk | hlast
      · exact extend_append_left true (by rw [length_frame8]; exact hk)
      · obtain rfl : bytes = [] := List.eq_nil_of_length_eq_zero (by simpa using hlast.symm)
        rw [List.flatMap_nil, List.append_nil]
        rfl
    | succ i =>
      have hshift := extend_append_right true (frame C b C) (bytes.flatMap fun b => frame C b C)
        (i * (10 * C) + k)
      rw [length_frame8] at hshift
      rw [Nat.succ_mul, show i * (10 * C) + 10 * C + k = 10 * C + (i * (10 * C) + k) by omega,
        hshift, ih (by simpa using hi) (hk.imp_right fun h => by simpa using h)]
      rfl

theorem extend_rest {k : ℕ} (hk : k < rest) :
    extend true (stream C rest bytes tail) k = true := by
  rw [stream, List.append_assoc, extend_append_left true (by simpa using hk), extend_replicate]

theorem extend_tail {k : ℕ} (hk : rest + bytes.length * (10 * C) ≤ k) :
    extend true (stream C rest bytes tail) k = true := by
  obtain ⟨m, rfl⟩ := Nat.exists_eq_add_of_le (show rest ≤ k by omega)
  rw [extend_stream, extend_end]
  rw [length_frames]
  omega

end Level

/-! ### Short streams -/

/-- The receiver over the stream. -/
def received (C parityType rest : ℕ) (bytes : List (BitVec 8)) (tail : ℕ) :
    ℕ → UartRx ⟨C, 8, 0, parityType⟩ := reset.after (extend true (stream C rest bytes tail))

section Receive

variable {C parityType rest : ℕ} {bytes : List (BitVec 8)} {tail : ℕ} (hC : 32 ≤ C) (hC' : C ≤ 65536)

variable (parityType rest tail) in
/-- The level of cell `j` of frame `i`. -/
theorem stream_cell {i j x : ℕ} (hi : i < bytes.length) (hj : j ≤ 8) (hx : x < C) :
    extend true (stream C rest bytes tail) (rest + (i * (10 * C) + (j * C + x))) =
      cellBit (p := ⟨C, 8, 0, parityType⟩) bytes[i] j := by
  have hle : (j + 1) * C ≤ 9 * C := Nat.mul_le_mul_right C (by omega)
  rw [Nat.succ_mul] at hle
  rw [extend_stream, extend_frames hi (Or.inl (by omega))]
  exact frame_cell (p := ⟨C, 8, 0, parityType⟩) hj (Nat.le_add_right _ _)
    (by rw [Nat.succ_mul]; omega)

include hC hC'

variable (parityType rest tail) in
/-- The receiver begins to look for frame `i` two clocks later in it than for the one before. -/
theorem looking {i : ℕ} (hi : i ≤ bytes.length) (hcond : 2 * bytes.length + 4 + C / 2 < C) :
    (Armed (received C parityType rest bytes tail (rest + i * (10 * C) + 2 * i + 6)) ∨
        Finished (received C parityType rest bytes tail (rest + i * (10 * C) + 2 * i + 6))) ∧
      (reset : UartRx ⟨C, 8, 0, parityType⟩).shown (extend true (stream C rest bytes tail))
        (rest + i * (10 * C) + 2 * i + 6) = bytes.take i := by
  have h8 : 0 < 8 ∧ 8 < 16 := by decide
  induction i with
  | zero =>
    rw [Nat.zero_mul, Nat.mul_zero]
    have hhigh : ∀ k < rest, extend true (stream C rest bytes tail) k = true :=
      fun k hk => extend_rest hk
    obtain ⟨harmed, hshown⟩ := armed_first (ready_reset (p := ⟨C, 8, 0, parityType⟩))
      (show 4 ≤ C by omega) hhigh
    exact ⟨Or.inl (harmed _ (Nat.le_refl _)), hshown⟩
  | succ i ih =>
    have hi' : i < bytes.length := hi
    obtain ⟨hstate, hshown⟩ := ih (by omega)
    -- the detector fires on the start bit of frame `i`
    obtain ⟨hD, hsame⟩ := detected_after (n := rest + i * (10 * C) + 2 * i) (fun k hk => by
      have hcell := stream_cell parityType rest tail hi' (Nat.zero_le 8) (show 2 * i + k < C by omega)
      rwa [show rest + (i * (10 * C) + (0 * C + (2 * i + k))) =
        rest + i * (10 * C) + 2 * i + k by omega] at hcell) hstate
    have hread : Reads ⟨C, 8, 0, parityType⟩ (extend true (stream C rest bytes tail))
        (rest + i * (10 * C) + 2 * i + 7 + C / 2 - 1) bytes[i] := by
      constructor
      · have hcell := stream_cell parityType rest tail hi' (Nat.zero_le 8) (show 2 * i + 6 + C / 2 < C by omega)
        rwa [show rest + (i * (10 * C) + (0 * C + (2 * i + 6 + C / 2))) =
          rest + i * (10 * C) + 2 * i + 7 + C / 2 - 1 by omega] at hcell
      · intro k (hk : k < 8)
        have hcell := stream_cell parityType rest tail (j := k + 1) hi' (by omega) (show 2 * i + 6 + C / 2 < C by omega)
        rw [show rest + i * (10 * C) + 2 * i + 7 + C / 2 - 1 + (k + 1) * C =
          rest + (i * (10 * C) + ((k + 1) * C + (2 * i + 6 + C / 2))) by omega, hcell]
        simp [cellBit]
    have hfinish := finished_after hD h8.1 h8.2 (show 6 ≤ C by omega) hC' rfl hread
    have hword := shown_receiving hD h8.1 h8.2 (show 6 ≤ C by omega) hC' rfl hread (Nat.le_refl _)
    have hlate : (8 + 1) * C + C / 2 < (8 + 2) * C + 1 := by omega
    have hnext : rest + (i + 1) * (10 * C) + 2 * (i + 1) + 6 =
        rest + i * (10 * C) + 2 * i + 7 + ((8 + 2) * C + 1) := by
      rw [Nat.succ_mul]
      omega
    rw [hnext]
    refine ⟨Or.inr hfinish, ?_⟩
    rw [hword, if_pos hlate, hsame, hshown, List.take_succ_eq_append_getElem hi']

/-- A short stream is delivered. -/
theorem delivers (hcond : 2 * bytes.length + 4 + C / 2 < C) :
    Delivers C parityType rest bytes := by
  refine ⟨2 * bytes.length + 6, fun tail htail => ?_⟩
  obtain ⟨hstate, hshown⟩ := looking parityType rest tail hC hC' (Nat.le_refl bytes.length) hcond
  have hlen : (stream C rest bytes tail).length = rest + bytes.length * (10 * C) + tail := by
    rw [stream, List.length_append, List.length_append, List.length_replicate, length_frames,
      List.length_replicate]
  have hrest := (at_rest (show 6 ≤ C by omega) (by omega) hstate
    (fun k hk => extend_tail (by omega)) (n := (stream C rest bytes tail).length) (by omega)).2
  rw [pulses_eq_shown, hrest, hshown, List.take_length]

/-! ### Long streams -/

omit hC hC' in
/-- A byte that repeats itself from its bit `j` on, with ones after its end, has only ones. -/
theorem all_ones {b : BitVec 8} {j : ℕ} (hj : 0 < j)
    (h : ∀ k < 8, b.getLsbD k = if j + k < 8 then b.getLsbD (j + k) else true) {k : ℕ}
    (hk : k < 8) : b.getLsbD k = true := by
  induction hd : 8 - k using Nat.strong_induction_on generalizing k with
  | h d ih =>
    rw [h k hk]
    split_ifs with hin
    · exact ih (8 - (j + k)) (by omega) hin rfl
    · rfl

omit hC hC' in
/-- A word read off the last frame with a delay of a bit time or more is not the byte sent. -/
theorem reads_late {b b' : BitVec 8} {S F : ℕ} {line : ℕ → Bool} (hC0 : 0 < C)
    (hline : ∀ k, line (F + k) = extend true (frame C b C) k)
    (hread : Reads ⟨C, 8, 0, parityType⟩ line S b') (hS : F + C ≤ S) : b' ≠ b := by
  rintro rfl
  obtain ⟨x, rfl⟩ := Nat.exists_eq_add_of_le (show F ≤ S by omega)
  -- the start bit is sampled in clock `r` of cell `j`
  obtain ⟨j, r, hr, rfl⟩ : ∃ j r, r < C ∧ x = j * C + r :=
    ⟨x / C, x % C, Nat.mod_lt _ hC0, (Nat.div_add_mod' x C).symm⟩
  have hlevel : ∀ m, line (F + (m * C + r)) = if m ≤ 8 then
      cellBit (p := ⟨C, 8, 0, parityType⟩) b' m else true := by
    intro m
    rw [hline]
    split_ifs with hm
    · exact frame_cell (p := ⟨C, 8, 0, parityType⟩) hm (Nat.le_add_right _ _)
        (by rw [Nat.succ_mul]; omega)
    · refine frame_high (p := ⟨C, 8, 0, parityType⟩) (show 9 * C ≤ m * C + r from ?_)
      have := Nat.mul_le_mul_right C (show 9 ≤ m by omega)
      omega
  have hj : 0 < j := by
    rcases Nat.eq_zero_or_pos j with rfl | hpos
    · omega
    · exact hpos
  have hstart := hread.start
  rw [hlevel] at hstart
  split_ifs at hstart with hj8
  · have hrepeat : ∀ k < 8, b'.getLsbD k = if j + k < 8 then b'.getLsbD (j + k) else true := by
      intro k hk
      have hbit := hread.bit k hk
      have hk' : F + (j * C + r) + (k + 1) * C = F + ((j + k + 1) * C + r) := by ring
      rw [hk', hlevel] at hbit
      rw [← hbit]
      refine if_congr (by omega) ?_ rfl
      simp [cellBit]
    rw [cellBit, decide_eq_true (Nat.ne_of_gt hj), Bool.true_and,
      all_ones hj hrepeat (show j - 1 < 8 by omega)] at hstart
    exact Bool.noConfusion hstart

/-- A long stream is not delivered: in its last frame the receiver would be a bit time late. -/
theorem not_delivers (hcond : C ≤ 2 * bytes.length + 4 + C / 2) :
    ¬Delivers C parityType rest bytes := by
  rintro ⟨tail, hall⟩
  have hready := ready_reset (p := ⟨C, 8, 0, parityType⟩)
  obtain ⟨rs, hrs, hshown⟩ := readings (s := (reset : UartRx ⟨C, 8, 0, parityType⟩))
    (extend true (stream C rest bytes tail)) (Nat.succ_pos 7) (show 8 < 16 by decide)
    (show 6 ≤ C by omega) hC' rfl hready (stream C rest bytes tail).length
  rw [← pulses_eq_shown, hall tail (Nat.le_refl _)] at hshown
  have hlen : bytes.length = rs.length := by rw [hshown, List.length_map]
  -- each reading is at least a frame and two clocks after the one before
  have htime : ∀ i (hi : i < rs.length), rest + 7 + i * (10 * C + 2) ≤ rs[i].1 := by
    intro i hi
    induction i with
    | zero =>
      have h0 := hrs.reading rs[0] (List.getElem_mem hi)
      have hlow := h0.low 0 (by omega)
      have hlate := h0.late
      rcases Nat.lt_or_ge (rs[0].1 - 7 + 0) rest with hlt | hge
      · rw [extend_rest hlt] at hlow
        exact Bool.noConfusion hlow
      · omega
    | succ i ih =>
      have hprev := ih (by omega)
      have hgap : rs[i].1 + ((8 + 2) * C + 2) ≤ rs[i + 1].1 :=
        List.isChain_iff_getElem.1 hrs.apart i hi
      rw [Nat.succ_mul]
      omega
  obtain ⟨n, hn⟩ : ∃ n, bytes.length = n + 1 := ⟨bytes.length - 1, by omega⟩
  have hi : n < rs.length := by omega
  have hib : n < bytes.length := by omega
  have hlast := hrs.reading rs[n] (List.getElem_mem hi)
  have hT := htime n hi
  rw [Nat.mul_add] at hT
  refine reads_late (F := rest + n * (10 * C)) (b := bytes[n]) (show 0 < C by omega) (fun k => ?_)
    hlast.reads (show rest + n * (10 * C) + C ≤ rs[n].1 + C / 2 - 1 by omega) ?_
  · rw [Nat.add_assoc, extend_stream, extend_frames hib (Or.inr hn.symm)]
  · simp only [hshown, List.getElem_map]

end Receive

/-! ### Main result -/

/-- The receiver of eight bits without parity takes in frames that follow each other at once
exactly when their number leaves the delay of two clocks a frame below half a bit. -/
theorem delivers_iff (C parityType rest : ℕ) (hC : 32 ≤ C) (hC' : C ≤ 65536)
    (bytes : List (BitVec 8)) :
    Delivers C parityType rest bytes ↔ 2 * bytes.length + 4 + C / 2 < C := by
  constructor
  · intro h
    by_contra hcond
    exact not_delivers hC hC' (by omega) h
  · exact delivers hC hC'

theorem delivers_iff_868 : Delivers 868 0 0 (List.replicate 215 0x55) ↔
    2 * (List.replicate 215 (0x55 : BitVec 8)).length + 4 + 868 / 2 < 868 :=
  delivers_iff 868 0 0 (by decide) (by decide) _

/-- At the period of the board a burst of 215 bytes is too long. -/
theorem not_delivers_868 : ¬Delivers 868 0 0 (List.replicate 215 0x55) :=
  not_delivers (by decide) (by decide) (by rw [List.length_replicate])

end Vcil.Rtl.UartRx
