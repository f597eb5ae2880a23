import Vcil.Lib.Pulses
import Vcil.Rtl.NiceCoreService
import Vcil.Rtl.NiceTransmit

/-!
# The whole design `uart_top`

Receiver, coprocessor and transmitter between the two serial lines.

* `UartTop`, `UartTop.step`: the three machines over the line `i_uart_rx`;
* `received`: what the receiver shows to the core, clock by clock;
* `UartRx.shows_frames`: on a line with frames, the clocks in which their words are shown;
* `UartTx.conveys_spaced`: what any source can rely on: stop bits of half a bit time.
-/

namespace Vcil.Rtl

open Clocked SerialLine Pulses

/-- The three machines. -/
structure UartTop (C parityType : ℕ) where
  rx : UartRx (uartTop C parityType)
  core : Core
  tx : UartTx (uartTop C parityType)

namespace UartTop

variable {C parityType : ℕ}

/-- The registers under `i_rst_n = 0`. -/
def reset : UartTop C parityType := ⟨UartRx.reset, Core.reset, UartTx.reset⟩

/-- One rising edge of `i_clk_sys` with `i_uart_rx` at level `i`. -/
def step (s : UartTop C parityType) (i : Bool) : UartTop C parityType where
  rx := s.rx.step i
  core := s.core.step ⟨s.rx.oUartData, s.rx.oRxDone, s.tx.oState0⟩
  tx := s.tx.step ⟨s.core.oDataTx, s.core.oDataValid⟩

variable (C parityType) in
/-- The registers after `n` clocks. -/
def after (line : ℕ → Bool) : ℕ → UartTop C parityType := trace step reset line

variable (C parityType) in
/-- The level of `o_uart_tx` in each of the first `N` clocks. -/
def txLine (line : ℕ → Bool) (N : ℕ) : List Bool :=
  history (fun n => (after C parityType line n).tx.oUartTx) N

variable (C parityType) in
/-- The pins of the core that come from the receiver. -/
def received (line : ℕ → Bool) (n : ℕ) : Byte × Bool :=
  ((after C parityType line n).rx.oUartData, (after C parityType line n).rx.oRxDone)

section Parts

variable (line : ℕ → Bool) (n : ℕ)

theorem rx_after : (after C parityType line n).rx = UartRx.reset.after line n := by
  induction n with
  | zero => rfl
  | succ n ih =>
    show (after C parityType line n).rx.step _ = ((UartRx.reset.after line n).step _)
    rw [ih]

/-- The core and the transmitter take no part in what the receiver does. -/
theorem nice_after : (⟨(after C parityType line n).core, (after C parityType line n).tx⟩ :
    NiceTx C parityType) = NiceTx.after C parityType (received C parityType line) n := by
  induction n with
  | zero => rfl
  | succ n ih =>
    show _ = NiceTx.step (NiceTx.after C parityType _ n) _
    rw [← ih]
    rfl

theorem core_after : (after C parityType line n).core =
    (NiceTx.after C parityType (received C parityType line) n).core :=
  congrArg NiceTx.core (nice_after line n)

theorem tx_after : (after C parityType line n).tx =
    (NiceTx.after C parityType (received C parityType line) n).tx :=
  congrArg NiceTx.tx (nice_after line n)

theorem txLine_eq (N : ℕ) : txLine C parityType line N =
    UartTx.line (NiceTx.shown C parityType (received C parityType line)) N := by
  simp only [txLine, UartTx.line, tx_after, NiceTx.tx_after]

end Parts

end UartTop

/-! ### Frames on the way in -/

namespace UartRx

variable {p : UartParams} {s : UartRx p} {line : ℕ → Bool}

/-- The clocks from the begin of a frame until its word is shown. -/
def showTime (p : UartParams) : ℕ := (p.dataWidth + 1) * p.cycle + p.cycle / 2 + 8

/-- The receiver shows a word in the clock in which one is added to what has been shown. -/
theorem done_eq_none {n : ℕ} (h : s.shown line (n + 1) = s.shown line n) :
    (s.after line (n + 1)).done? = none := by
  rw [shown_succ] at h
  exact Option.toList_eq_nil_iff.1 (List.append_right_eq_self.1 h)

theorem done_eq_some {n : ℕ} {b : BitVec p.dataWidth}
    (h : s.shown line (n + 1) = s.shown line n ++ [b]) : (s.after line (n + 1)).done? = some b := by
  rw [shown_succ] at h
  exact Option.toList_eq_singleton_iff.1 (List.append_cancel_left h)

variable (line) in
/-- On any line, a word is shown a frame after the start and after the word before. -/
theorem done_apart (hw0 : 0 < p.dataWidth) (hw : p.dataWidth < 16) (hC : 6 ≤ p.cycle)
    (hC' : p.cycle ≤ 65536) (hon : p.parityOn = 0) (hs : Ready s) {n : ℕ}
    (hn : (s.after line n).done? ≠ none) :
    (p.dataWidth + 1) * p.cycle + p.cycle / 2 < n ∧
      ∀ k < n, (s.after line k).done? ≠ none →
        k + ((p.dataWidth + 1) * p.cycle + p.cycle / 2) < n := by
  have hphase : Phase s line n := phase_after hw0 hw hC hC' hon hs n
  rcases hphase with
    ⟨rs, -, -, -, harmed | hfinished⟩ | ⟨rs, -, T, hT, -, -, hlate, -, hstate, hend⟩
  · exact absurd harmed.done hn
  · exact absurd hfinished.done hn
  · -- in a frame there is one clock in which its word may be shown
    have hone : ∀ y, T + (y + 1) ≤ n → (s.after line (T + (y + 1))).done? ≠ none →
        y = (p.dataWidth + 1) * p.cycle + p.cycle / 2 := by
      intro y hy hdone
      by_contra hne
      refine hdone (done_eq_none (n := T + y) ?_)
      by_cases hS : line (T + p.cycle / 2 - 1) = true
      · rw [if_pos hS] at hend
        have hquiet := (aborted_after hC hC' hstate hS).2
        exact (hquiet (y + 1) (by omega)).trans (hquiet y (by omega)).symm
      · rw [if_neg hS] at hend
        obtain ⟨b, hb⟩ := exists_reads (p := p) (by simpa using hS)
        have hword := fun x hx => shown_receiving hstate hw0 hw hC hC' hon hb (x := x) hx
        refine (hword (y + 1) (by omega)).trans (Eq.trans ?_ (hword y (by omega)).symm)
        exact congrArg _ (if_congr (by omega) rfl rfl)
    obtain ⟨x, rfl⟩ := Nat.exists_eq_add_of_le hT
    cases x with
    | zero => exact absurd hstate.done hn
    | succ y =>
      have hy := hone y (Nat.le_refl _) hn
      refine ⟨by omega, fun k hk hdone => ?_⟩
      rcases Nat.lt_or_ge T k with hlt | hge
      · obtain ⟨z, rfl⟩ := Nat.exists_eq_add_of_lt hlt
        have hz := hone z (by omega) hdone
        omega
      · omega

variable (s line) in
theorem shown_prefix {m n : ℕ} (h : m ≤ n) : s.shown line m <+: s.shown line n := by
  induction n, h using Nat.le_induction with
  | base => exact List.prefix_rfl
  | succ n _ ih =>
    rw [shown_succ]
    exact ih.trans (List.prefix_append _ _)

/-- The run from clock `F` on. -/
theorem after_add (F k : ℕ) :
    s.after line (F + k) = (s.after line F).after (fun j => line (F + j)) k :=
  trace_add step s line F k

/-- On a high line a ready receiver stays so. -/
theorem Ready.after_high (h : Ready s) (hC : 4 ≤ p.cycle) {n : ℕ}
    (hhigh : ∀ k < n, line k = true) : Ready (s.after line n) := by
  induction n with
  | zero => exact h
  | succ n ih =>
    show Ready ((s.after line n).step (line n))
    rw [hhigh n (Nat.lt_succ_self n)]
    exact ready_high (ih fun k hk => hhigh k (by omega)) hC

section Frames

variable {b : BitVec p.dataWidth} {B idle : ℕ}
  (hw0 : 0 < p.dataWidth) (hw : p.dataWidth < 16) (hC : 6 ≤ p.cycle) (hC' : p.cycle ≤ 65536)
  (hon : p.parityOn = 0)
include hw0 hw hC hC' hon

/-- What has been shown in the first `n` clocks of a frame. -/
theorem shown_frame (ht : Timing p B idle) (h : Ready s) (n : ℕ) :
    s.shown (extend true (frame B b idle)) n = if showTime p ≤ n then [b] else [] := by
  have hcells : (p.dataWidth + 2) * p.cycle = (p.dataWidth + 1) * p.cycle + p.cycle := by ring
  obtain ⟨hD, hbefore⟩ := detected_frame (b := b) ht hC h
  rcases Nat.lt_or_ge n 7 with hn | hn
  · have hpre := shown_prefix s (extend true (frame B b idle)) (show n ≤ 7 by omega)
    rw [hbefore] at hpre
    rw [if_neg (by simp only [showTime]; omega), List.prefix_nil.1 hpre]
  rcases Nat.lt_or_ge n (8 + (p.dataWidth + 2) * p.cycle) with hlt | hge
  · obtain ⟨x, rfl⟩ := Nat.exists_eq_add_of_le hn
    rw [shown_receiving hD hw0 hw hC hC' hon (reads_frame ht) (by omega), hbefore,
      List.nil_append]
    exact if_congr (by simp only [showTime]; omega) rfl rfl
  · rw [if_pos (by simp only [showTime]; omega)]
    exact (rest_frame ht hon hw0 hw hC hC' h hge).2

/-- The frame is in clocks `F` to `F + length` of the line; its word is shown in one clock of these,
and then the receiver is ready for the next. -/
theorem frame_at (ht : Timing p B idle) {F : ℕ} (h : Ready (s.after line F))
    (hline : ∀ k < (frame B b idle).length, line (F + k) = extend true (frame B b idle) k) :
    (∀ n, 0 < n → n ≤ (frame B b idle).length →
        (s.after line (F + n)).done? = if n = showTime p then some b else none) ∧
      Ready (s.after line (F + (frame B b idle).length)) := by
  have hrun : ∀ n ≤ (frame B b idle).length, s.after line (F + n) =
      (s.after line F).after (extend true (frame B b idle)) n := fun n hn => by
    rw [after_add]
    exact trace_congr fun k hk => hline k (by omega)
  constructor
  · intro n hpos hn
    obtain ⟨m, rfl⟩ := Nat.exists_eq_succ_of_ne_zero (Nat.pos_iff_ne_zero.1 hpos)
    rw [hrun _ hn]
    have hm := shown_frame (b := b) hw0 hw hC hC' hon ht h m
    have hm' := shown_frame (b := b) hw0 hw hC hC' hon ht h (m + 1)
    by_cases heq : m + 1 = showTime p
    · rw [if_pos heq]
      rw [if_neg (by omega)] at hm
      rw [if_pos (by omega)] at hm'
      exact done_eq_some (by rw [hm, hm', List.nil_append])
    · rw [if_neg heq]
      refine done_eq_none ?_
      rw [hm, hm']
      exact if_congr (by omega) rfl rfl
  · rw [hrun _ (Nat.le_refl _)]
    have hready := ready_frame (b := b) ht hon hw0 hw hC hC' h
    rwa [← history_extend true (frame B b idle), ← trace_eq_run] at hready

/-- On a line that from clock `F` on has frames, each with its own time of high level, the words are
shown at the same place of each frame, and nothing else is shown. -/
theorem shows_frames {fs : List (BitVec p.dataWidth × ℕ)} (hfs : ∀ f ∈ fs, Timing p B f.2) {F : ℕ}
    (h : Ready (s.after line F))
    (hline : ∀ k, line (F + k) = extend true (fs.flatMap fun f => frame B f.1 f.2) k) :
    (∀ n, 0 < n → n < showTime p → (s.after line (F + n)).done? = none) ∧
      Shows (fun n => (s.after line n).done?) (F + showTime p)
        (fs.map fun f => (f.1, (p.dataWidth + 1) * B + f.2)) ∧
      ∀ n, F + (showTime p + span (fs.map fun f => (f.1, (p.dataWidth + 1) * B + f.2))) ≤ n →
        (s.after line n).done? = none := by
  induction fs generalizing F with
  | nil =>
    have hquiet : ∀ n, (s.after line (F + n)).done? = none := fun n => by
      rw [after_add]
      exact (h.after_high (by omega) fun k _ => hline k).done
    refine ⟨fun n _ _ => hquiet n, trivial, fun n hn => ?_⟩
    obtain ⟨d, rfl⟩ := Nat.exists_eq_add_of_le (show F ≤ n by omega)
    exact hquiet d
  | cons f fs ih =>
    have ht := hfs f List.mem_cons_self
    have hlen : (frame B f.1 f.2).length = (p.dataWidth + 1) * B + f.2 := length_frame
    have hroom : showTime p ≤ (p.dataWidth + 1) * B + f.2 := by
      have hcells : (p.dataWidth + 2) * p.cycle = (p.dataWidth + 1) * p.cycle + p.cycle := by ring
      have hrearm := ht.rearm
      simp only [showTime]
      omega
    obtain ⟨hone, hready⟩ := frame_at (b := f.1) hw0 hw hC hC' hon ht h fun k hk => by
      rw [hline, List.flatMap_cons, extend_append_left true hk]
    obtain ⟨hearly, hshows, hlate⟩ := ih (fun g hg => hfs g (List.mem_cons_of_mem f hg)) hready
      fun k => by
      rw [Nat.add_assoc, hline, List.flatMap_cons, extend_append_right]
    rw [hlen] at hone hearly hshows hlate
    refine ⟨fun n hpos hn => ?_, ⟨?_, ?_, fun k hlo hhi => ?_, ?_⟩, fun n hn => ?_⟩
    · rw [hone n hpos (by omega), if_neg (by omega)]
    · simp only [showTime] at hroom ⊢
      omega
    · exact (hone _ (by simp only [showTime]; omega) hroom).trans (if_pos rfl)
    · -- until the end of this frame, and then until the next word
      rcases Nat.lt_or_ge (F + ((p.dataWidth + 1) * B + f.2)) k with hk | hk
      · obtain ⟨d, rfl⟩ := Nat.exists_eq_add_of_lt hk
        exact hearly (d + 1) (Nat.succ_pos d) (by omega)
      · obtain ⟨d, rfl⟩ := Nat.exists_eq_add_of_le (show F ≤ k by omega)
        show (s.after line (F + d)).done? = none
        rw [hone d (by omega) (by omega), if_neg (by omega)]
    · rwa [Nat.add_right_comm] at hshows
    · rw [List.map_cons, span_cons] at hn
      exact hlate n (by omega)

end Frames

end UartRx

/-! ### Frames on the way out -/

theorem TxPins.offers_prefix {w : ℕ} (is : ℕ → TxPins w) {m n : ℕ} (h : m ≤ n) :
    TxPins.offers is m <+: TxPins.offers is n := by
  induction n, h using Nat.le_induction with
  | base => exact List.prefix_rfl
  | succ n _ ih =>
    rw [TxPins.offers_succ]
    exact ih.trans (List.prefix_append _ _)

namespace UartTx

section Spacing

variable {C parityType : ℕ} (hC : 8 ≤ C) (hC' : C ≤ 65536)
include hC hC'

variable (parityType) in
theorem half_lt_bitTime :
    (uartTop C parityType).cycle / 2 < bitTime (uartTop C parityType) := by
  have htime : bitTime (uartTop C parityType) = C := Nat.min_eq_left hC'
  rw [htime]
  show C / 2 < C
  omega

variable (parityType) in
/-- The clocks from an offer until the transmitter is free again. -/
theorem duration_uartTop : duration (uartTop C parityType) = 9 * C + C / 2 + 4 := by
  have htime : bitTime (uartTop C parityType) = C := Nat.min_eq_left hC'
  have hcells : cells (uartTop C parityType) = 9 := by
    rw [cells, if_pos rfl, dataCells, if_pos (half_lt_bitTime parityType hC hC')]
  have hlatency : latency (uartTop C parityType) = C / 2 + 2 := rfl
  rw [duration, htime, hcells, hlatency]
  omega

variable {is : ℕ → TxPins (uartTop C parityType).dataWidth} (h : Handshake is)
include h

theorem idle_of_rises {n : ℕ} (hrise : TxPins.rises is n = true) : Idle is n := by
  have hlt := half_lt_bitTime parityType hC hC'
  rcases phase h (Nat.succ_pos 7) (show 8 < 15 by decide) hC hlt n with
    hidle | ⟨t, e, rfl, he, he', hidle, hr⟩
  · exact hidle
  · rw [not_rises_at h (Nat.succ_pos 7) (show 8 < 15 by decide) hC hlt hidle hr he he'] at hrise
    exact Bool.noConfusion hrise

/-- Between two offers the transmitter sends the first. -/
theorem rises_apart {m n : ℕ} (hmn : m < n) (hm : TxPins.rises is m = true)
    (hn : TxPins.rises is n = true) : m + (9 * C + C / 2 + 4) ≤ n := by
  by_contra hlt
  obtain ⟨e, rfl⟩ := Nat.exists_eq_add_of_lt hmn
  have hnot := not_rises_at h (Nat.succ_pos 7) (show 8 < 15 by decide) hC
    (half_lt_bitTime parityType hC hC') (idle_of_rises hC hC' h hm) hm (show 1 ≤ e + 1 by omega)
    (by rw [duration_uartTop parityType hC hC']; omega)
  rw [Nat.add_assoc, hnot] at hn
  exact Bool.noConfusion hn

/-- Whatever the source, each frame is followed by a high level of more than half a bit time. -/
theorem conveys_spaced (N : ℕ) :
    Conveys (frame8N1 C) (C / 2 + 4) (line is N) ((TxPins.offers is N).map Prod.snd) := by
  refine (conveys8N1_iff hC hC' h (Nat.succ_pos _)).2 (fun N => List.Pairwise.isChain ?_) N
  rw [TxPins.offers, List.pairwise_map]
  refine (List.pairwise_lt_range.filter _).imp_of_mem fun {a b} ha hb hab => ?_
  have hapart := rises_apart hC hC' h hab (List.mem_filter.1 ha).2 (List.mem_filter.1 hb).2
  show a + (9 * C + (C / 2 + 4)) ≤ b
  omega

end Spacing

end UartTx

end Vcil.Rtl
