import Vcil.Lib.SerialLine
import Vcil.Rtl.UartRxFrames
import Vcil.Rtl.UartTxFrames

/-!
# The transmitter and its source

A source offers words with `i_data_valid` and watches `o_state_0`.  Runs are over infinite
sequences of pins, from reset.

* `Handshake`: the rules of the source; `rises`, `offers`: the clocks in which it begins an offer;
* `waveform b`: what the line shows from the offer of `b` until the transmitter is free again;
* `phase`: at all times the transmitter is at rest or somewhere in such a waveform;
* `line_prefix`: the line shows the words offered, in order, at times that the offers determine.
-/

namespace Vcil.Rtl

open Clocked SerialLine

namespace TxPins

variable {w : ℕ}

/-- `i_data_valid` rises in clock `n`. -/
def rises (is : ℕ → TxPins w) : ℕ → Bool
  | 0 => (is 0).iDataValid
  | n + 1 => !(is n).iDataValid && (is (n + 1)).iDataValid

/-- The words offered before clock `N`, each with the clock of its offer. -/
def offers (is : ℕ → TxPins w) (N : ℕ) : List (ℕ × BitVec w) :=
  ((List.range N).filter (rises is)).map fun n => (n, (is n).iDataTx)

theorem offers_succ (is : ℕ → TxPins w) (N : ℕ) :
    offers is (N + 1) =
      offers is N ++ if rises is N then [(N, (is N).iDataTx)] else [] := by
  rw [offers, List.range_succ, List.filter_append, List.map_append, ← offers]
  cases h : rises is N <;> simp [h]

end TxPins

namespace UartTx

open TxPins

variable {p : UartParams}

/-- The registers after `n` clocks. -/
def after (is : ℕ → TxPins p.dataWidth) : ℕ → UartTx p := trace step reset is

/-- The line in the first `N` clocks. -/
def line (is : ℕ → TxPins p.dataWidth) (N : ℕ) : List Bool :=
  history (fun n => (after is n).oUartTx) N

/-- The source begins an offer only while `o_state_0` is low, keeps it until `o_state_0` is high,
and has withdrawn it when the stop bit comes. -/
structure Handshake (is : ℕ → TxPins p.dataWidth) : Prop where
  offered : ∀ n, rises is n = true → (after is n).oState0 = false
  held : ∀ n, (is n).iDataValid = true → (after is n).oState0 = false → is (n + 1) = is n
  released : ∀ n, (is n).iDataValid = true → (after is n).oState0 = true →
    (after is (n + 1)).rCurrentState = .stateEnd → (is (n + 1)).iDataValid = false

/-- The levels of a frame, one for each bit cell before `STATE_END`. -/
def levels (b : BitVec p.dataWidth) : List Bool := (List.range (cells p)).map (level b)

/-- A frame on the line. -/
def frame (b : BitVec p.dataWidth) : List Bool := hold (bitTime p) (levels b)

/-- The clocks between an offer and its start bit on the line. -/
def latency (p : UartParams) : ℕ := p.cycle / 2 + 2

/-- The line from the offer of `b` until the transmitter is free again. -/
def waveform (b : BitVec p.dataWidth) : List Bool :=
  List.replicate (latency p) true ++ frame b ++ List.replicate 2 true

/-- The clocks from an offer until the transmitter is free again. -/
def duration (p : UartParams) : ℕ := latency p + cells p * bitTime p + 2

theorem length_frame (b : BitVec p.dataWidth) : (frame b).length = cells p * bitTime p := by
  simp [frame, levels]

theorem length_waveform (b : BitVec p.dataWidth) : (waveform b).length = duration p := by
  simp only [waveform, List.length_append, List.length_replicate, length_frame, duration]

/-- Without parity a frame is that of the receiver. -/
theorem frame_eq (hon : p.parityOn = 0) (hlt : p.cycle / 2 < bitTime p)
    (b : BitVec p.dataWidth) : frame b = UartRx.frame (bitTime p) b 0 := by
  have hdata : dataCells p = p.dataWidth := if_pos hlt
  have hcells : cells p = p.dataWidth + 1 := by rw [cells, if_pos hon, hdata]
  have hlevels : levels b = false :: List.ofFn fun i : Fin p.dataWidth => b.getLsbD i := by
    rw [levels, hcells, List.range_succ_eq_map, List.map_cons, List.map_map]
    refine congrArg (false :: ·) (List.ext_getElem (by simp) fun k hk _ => ?_)
    have hk' : k + 1 ≤ dataCells p := by
      rw [hdata]
      exact Nat.succ_le_of_lt (by simpa using hk)
    simp [level, hk', BitVec.getLsbD_eq_getElem (Nat.lt_of_succ_le (hdata ▸ hk'))]
  rw [frame, hlevels, UartRx.frame, List.replicate_zero, List.append_nil]

section Waveform

variable (b : BitVec p.dataWidth) {e : ℕ}

/-- A frame begins with the low level of the start bit. -/
theorem frame_cons (hC : 8 ≤ p.cycle) : ∃ l, frame b = false :: l := by
  have hpos := bitTime_pos hC
  have hcells : 0 < cells p := Nat.lt_of_le_of_lt (Nat.zero_le _) dataCells_lt_cells
  have h0 : (frame b)[0]? = some false := by
    rw [frame, getElem?_hold (j := 0) _ (by omega) (by omega), levels]
    simp [hcells, level]
  cases hf : frame b with
  | nil =>
    rw [hf] at h0
    cases h0
  | cons a l =>
    rw [hf] at h0
    obtain rfl : a = false := Option.some.inj h0
    exact ⟨l, rfl⟩

theorem waveform_early (he : e < latency p) : (waveform b)[e]? = some true := by
  rw [waveform, List.append_assoc, List.getElem?_append_left (by simpa using he),
    List.getElem?_replicate, if_pos he]

theorem waveform_late (hlo : latency p + cells p * bitTime p ≤ e) (he : e < duration p) :
    (waveform b)[e]? = some true := by
  have hlen : (List.replicate (latency p) true ++ frame b).length =
      latency p + cells p * bitTime p := by
    simp only [List.length_append, List.length_replicate, length_frame]
  rw [waveform, List.getElem?_append_right (by omega), List.getElem?_replicate, if_pos]
  rw [hlen]
  unfold duration at he
  omega

theorem waveform_cell {j : ℕ} (hj : j < cells p) (hlo : latency p + j * bitTime p ≤ e)
    (hhi : e < latency p + (j + 1) * bitTime p) : (waveform b)[e]? = some (level b j) := by
  have hle : (j + 1) * bitTime p ≤ cells p * bitTime p := Nat.mul_le_mul_right _ hj
  rw [waveform, List.append_assoc, List.getElem?_append_right (by simp; omega),
    List.getElem?_append_left (by rw [length_frame]; simp; omega), List.length_replicate, frame,
    getElem?_hold (j := j) _ (by omega) (by omega), levels]
  simp [hj]

end Waveform

/-- The transmitter is free, and no offer is standing. -/
structure Idle (is : ℕ → TxPins p.dataWidth) (n : ℕ) : Prop where
  resting : Resting false (after is n)
  before : ∀ m, m + 1 = n → (is m).iDataValid = false

section Runs

variable {is : ℕ → TxPins p.dataWidth}

theorem idle_zero : Idle is 0 :=
  ⟨⟨rfl, rfl, rfl, rfl, rfl, rfl⟩, fun _ h => absurd h (Nat.succ_ne_zero _)⟩

theorem Idle.rises_iff {n : ℕ} (h : Idle is n) : rises is n = (is n).iDataValid := by
  cases n with
  | zero => rfl
  | succ n => rw [rises, h.before n rfl, Bool.not_false, Bool.true_and]

theorem Idle.wait {n : ℕ} (h : Idle is n) (hr : rises is n = false) (hC : 8 ≤ p.cycle) :
    Idle is (n + 1) := by
  have hv : (is n).iDataValid = false := by rw [← h.rises_iff, hr]
  refine ⟨h.resting.wait hv hC, ?_⟩
  rintro m hm
  obtain rfl : m = n := by omega
  exact hv

theorem Handshake.not_rises (h : Handshake is) {n : ℕ} (hbusy : (after is n).oState0 = true) :
    rises is n = false := by
  by_contra hr
  rw [h.offered n (by simpa using hr)] at hbusy
  exact Bool.noConfusion hbusy

theorem Handshake.offers_busy (h : Handshake is) {t : ℕ} (hrise : rises is t = true) {e : ℕ}
    (he : 1 ≤ e) (hbusy : ∀ k, 1 ≤ k → k < e → (after is (t + k)).oState0 = true) :
    offers is (t + e) = offers is t ++ [(t, (is t).iDataTx)] := by
  induction e, he using Nat.le_induction with
  | base => rw [offers_succ, if_pos hrise]
  | succ e he ih =>
    rw [← Nat.add_assoc, offers_succ, ih fun k hk hke => hbusy k hk (by omega),
      h.not_rises (hbusy e he (Nat.lt_succ_self e))]
    simp

variable (h : Handshake is) (hw0 : 0 < p.dataWidth) (hw : p.dataWidth < 15) (hC : 8 ≤ p.cycle)
include h hC

theorem accepted_at {t : ℕ} (hidle : Idle is t) (hrise : rises is t = true) :
    after is (t + 1) = accepted (is t).iDataTx ∧ is (t + 1) = ⟨(is t).iDataTx, true⟩ := by
  have hv : (is t).iDataValid = true := by rw [← hidle.rises_iff, hrise]
  refine ⟨hidle.resting.accept hv hC, ?_⟩
  rw [h.held t hv hidle.resting.state0, ← hv]

include hw0 hw

/-- From the second clock after an offer the transmitter is in the bit cells of the word. -/
theorem sending_at (hH : p.cycle / 2 ≤ bitTime p) {t : ℕ} (hidle : Idle is t)
    (hrise : rises is t = true) {e : ℕ} (he : 2 ≤ e)
    (he' : e ≤ 1 + cells p * bitTime p + p.cycle / 2) :
    ∃ j r, e = 1 + j * bitTime p + r ∧ 1 ≤ r ∧ r ≤ bitTime p ∧ j ≤ cells p ∧
      after is (t + e) = registers (is t).iDataTx j r := by
  have hpos := bitTime_pos hC
  obtain ⟨hacc, hpins⟩ := accepted_at h hC hidle hrise
  induction e, he using Nat.le_induction with
  | base =>
    refine ⟨0, 1, by omega, Nat.le_refl 1, by omega, Nat.zero_le _, ?_⟩
    show (after is (t + 1)).step (is (t + 1)) = _
    rw [hacc, hpins]
    exact step_accepted rfl hC
  | succ e he ih =>
    obtain ⟨j, r, rfl, hr, hrP, hj, hreg⟩ := ih (by omega)
    have hend : j = cells p → r < p.cycle / 2 := by
      rintro rfl
      omega
    have hstep := step_registers (b := (is t).iDataTx) (i := is (t + (1 + j * bitTime p + r)))
      hw0 hw hC hH hj hr hrP hend
    rw [← hreg] at hstep
    by_cases hlast : r = bitTime p
    · rw [if_pos hlast] at hstep
      have hj' : j < cells p := by
        rcases Nat.eq_or_lt_of_le hj with heq | hlt
        · have := hend heq
          omega
        · exact hlt
      have hmul : (j + 1) * bitTime p = j * bitTime p + bitTime p := Nat.succ_mul _ _
      exact ⟨j + 1, 1, by omega, Nat.le_refl 1, by omega, hj', hstep⟩
    · rw [if_neg hlast] at hstep
      exact ⟨j, r + 1, by omega, by omega, by omega, hj, hstep⟩

theorem busy_cells (hH : p.cycle / 2 ≤ bitTime p) {t : ℕ} (hidle : Idle is t)
    (hrise : rises is t = true) {e : ℕ} (he : 1 ≤ e) (he' : e < latency p + cells p * bitTime p) :
    (after is (t + e)).oState0 = true := by
  rcases Nat.eq_or_lt_of_le he with rfl | he2
  · rw [(accepted_at h hC hidle hrise).1]
    rfl
  · unfold latency at he'
    obtain ⟨j, r, -, -, -, -, hreg⟩ := sending_at h hw0 hw hC hH hidle hrise (e := e) he2 (by omega)
    rw [hreg]
    rfl

/-- The line follows the waveform up to the stop bit. -/
theorem level_cells (hH : p.cycle / 2 ≤ bitTime p) {t : ℕ} (hidle : Idle is t)
    (hrise : rises is t = true) {e : ℕ} (he : e < latency p + cells p * bitTime p) :
    (waveform (is t).iDataTx)[e]? = some (after is (t + e)).oUartTx := by
  have hpos := bitTime_pos hC
  rcases Nat.lt_or_ge e 2 with hfirst | he2
  · rw [waveform_early _ (by unfold latency; omega)]
    rcases Nat.eq_zero_or_pos e with rfl | he1
    · exact congrArg some hidle.resting.line.symm
    · obtain rfl : e = 1 := by omega
      rw [(accepted_at h hC hidle hrise).1]
      rfl
  · obtain ⟨j, r, rfl, hr, hrP, hj, hreg⟩ := sending_at h hw0 hw hC hH hidle hrise
      (e := e) he2 (by unfold latency at he; omega)
    rw [hreg]
    show _ = some (if driven p j r = 0 then true else level _ (driven p j r - 1))
    have hmul : (j + 1) * bitTime p = j * bitTime p + bitTime p := Nat.succ_mul _ _
    rcases Nat.lt_or_ge (p.cycle / 2) r with hafter | hbefore
    · have hd : driven p j r = j + 1 := if_pos hafter
      rw [hd, if_neg (Nat.succ_ne_zero j), Nat.add_sub_cancel]
      refine waveform_cell _ ?_ (by unfold latency; omega) (by unfold latency; omega)
      by_contra hj'
      have hle := Nat.mul_le_mul_right (bitTime p) (Nat.not_lt.1 hj')
      unfold latency at he
      omega
    · have hd : driven p j r = j := if_neg (Nat.not_lt.2 hbefore)
      rw [hd]
      cases j with
      | zero =>
        rw [if_pos rfl]
        exact waveform_early _ (by unfold latency; omega)
      | succ j =>
        have hmul : (j + 1) * bitTime p = j * bitTime p + bitTime p := Nat.succ_mul _ _
        rw [if_neg (Nat.succ_ne_zero j), Nat.add_sub_cancel]
        exact waveform_cell _ hj (by unfold latency; omega) (by unfold latency; omega)

variable (hlt : p.cycle / 2 < bitTime p)
include hlt

theorem stopped_at {t : ℕ} (hidle : Idle is t) (hrise : rises is t = true) :
    Stopped (after is (t + (latency p + cells p * bitTime p))) ∧
      Resting true (after is (t + (latency p + cells p * bitTime p + 1))) := by
  have hpos := bitTime_pos hC
  obtain ⟨j, r, he, hr, hrP, hj, hreg⟩ := sending_at h hw0 hw hC (Nat.le_of_lt hlt) hidle hrise
    (e := 1 + cells p * bitTime p + p.cycle / 2) (by omega) (Nat.le_refl _)
  obtain rfl : j = cells p := by
    by_contra hne
    have hmul : (j + 1) * bitTime p ≤ cells p * bitTime p := Nat.mul_le_mul_right _ (by omega)
    rw [Nat.succ_mul] at hmul
    omega
  obtain rfl : r = p.cycle / 2 := by omega
  have hstop : Stopped (after is (t + (latency p + cells p * bitTime p))) := by
    rw [show t + (latency p + cells p * bitTime p) =
      t + (1 + cells p * bitTime p + p.cycle / 2) + 1 by unfold latency; omega]
    show Stopped ((after is _).step _)
    rw [hreg]
    exact step_stop hC hlt
  exact ⟨hstop, hstop.next⟩

/-- The transmitter is busy from the clock after the offer on. -/
theorem busy_at {t : ℕ} (hidle : Idle is t) (hrise : rises is t = true) {e : ℕ} (he : 1 ≤ e)
    (he' : e < duration p) : (after is (t + e)).oState0 = true := by
  obtain ⟨hstop, hrest⟩ := stopped_at h hw0 hw hC hlt hidle hrise
  unfold duration at he'
  rcases Nat.lt_or_ge e (latency p + cells p * bitTime p) with hcell | hend
  · exact busy_cells h hw0 hw hC (Nat.le_of_lt hlt) hidle hrise he hcell
  · rcases Nat.eq_or_lt_of_le hend with heq | hgt
    · rw [← heq]
      exact hstop.state0
    · rw [show e = latency p + cells p * bitTime p + 1 by omega]
      exact hrest.state0

/-- While the transmitter is busy no offer begins. -/
theorem not_rises_at {t : ℕ} (hidle : Idle is t) (hrise : rises is t = true) {e : ℕ} (he : 1 ≤ e)
    (he' : e < duration p) : rises is (t + e) = false :=
  h.not_rises (busy_at h hw0 hw hC hlt hidle hrise he he')

/-- In `STATE_END` and until the transmitter is free, no offer stands. -/
theorem withdrawn_at {t : ℕ} (hidle : Idle is t) (hrise : rises is t = true) {e : ℕ}
    (he : 2 + cells p * bitTime p ≤ e) (he' : e < duration p) :
    (is (t + e)).iDataValid = false := by
  have hpos := bitTime_pos hC
  have hcells : 0 < cells p := Nat.lt_of_le_of_lt (Nat.zero_le _) dataCells_lt_cells
  have hmul : bitTime p ≤ cells p * bitTime p := Nat.le_mul_of_pos_left _ hcells
  induction e, he using Nat.le_induction with
  | base =>
    have hrises := not_rises_at h hw0 hw hC hlt hidle hrise (e := 2 + cells p * bitTime p)
      (by omega) he'
    rw [show t + (2 + cells p * bitTime p) = t + (1 + cells p * bitTime p) + 1 by omega]
      at hrises ⊢
    by_cases hv : (is (t + (1 + cells p * bitTime p))).iDataValid = true
    · refine h.released _ hv (busy_at h hw0 hw hC hlt hidle hrise (by omega) (by omega)) ?_
      obtain ⟨j, r, he, hr, hrP, hj, hreg⟩ := sending_at h hw0 hw hC (Nat.le_of_lt hlt) hidle
        hrise (e := 2 + cells p * bitTime p) (by omega) (by omega)
      have hj' : cells p ≤ j := by
        by_contra hne
        have hmul : (j + 1) * bitTime p ≤ cells p * bitTime p :=
          Nat.mul_le_mul_right _ (by omega)
        rw [Nat.succ_mul] at hmul
        omega
      rw [show t + (1 + cells p * bitTime p) + 1 = t + (2 + cells p * bitTime p) by omega, hreg]
      exact cellState_end hj'
    · have hlow : (is (t + (1 + cells p * bitTime p))).iDataValid = false := by simpa using hv
      rw [rises, hlow, Bool.not_false, Bool.true_and] at hrises
      exact hrises
  | succ e he ih =>
    have hrises := not_rises_at h hw0 hw hC hlt hidle hrise (e := e + 1) (by omega) he'
    rw [← Nat.add_assoc, rises, ih (by omega), Bool.not_false, Bool.true_and] at hrises
    exact hrises

theorem idle_again {t : ℕ} (hidle : Idle is t) (hrise : rises is t = true) :
    Idle is (t + duration p) := by
  have hlast : t + duration p = t + (latency p + cells p * bitTime p + 1) + 1 := rfl
  have hv := withdrawn_at h hw0 hw hC hlt hidle hrise
    (e := latency p + cells p * bitTime p + 1) (by unfold latency; omega) (by unfold duration; omega)
  obtain ⟨-, hrest⟩ := stopped_at h hw0 hw hC hlt hidle hrise
  rw [hlast]
  refine ⟨hrest.wait hv hC, ?_⟩
  rintro m hm
  obtain rfl : m = t + (latency p + cells p * bitTime p + 1) := by omega
  exact hv

/-- At all times the transmitter is at rest or on its way from an offer back to rest. -/
theorem phase (N : ℕ) : Idle is N ∨
    ∃ t e, N = t + e ∧ 1 ≤ e ∧ e < duration p ∧ Idle is t ∧ rises is t = true := by
  induction N with
  | zero => exact Or.inl idle_zero
  | succ N ih =>
    rcases ih with hidle | ⟨t, e, rfl, he, he', hidle, hrise⟩
    · by_cases hr : rises is N = true
      · exact Or.inr ⟨N, 1, rfl, Nat.le_refl 1, by unfold duration latency; omega, hidle, hr⟩
      · exact Or.inl (hidle.wait (by simpa using hr) hC)
    · rcases Nat.eq_or_lt_of_le (Nat.succ_le_of_lt he') with hlast | hmore
      · left
        rw [Nat.add_assoc, show e + 1 = duration p from hlast]
        exact idle_again h hw0 hw hC hlt hidle hrise
      · exact Or.inr ⟨t, e + 1, rfl, by omega, hmore, hidle, hrise⟩

/-! ### The line -/

/-- The line after an offer shows its waveform. -/
theorem line_sending {t : ℕ} (hidle : Idle is t) (hrise : rises is t = true) {e : ℕ}
    (he : e ≤ duration p) : line is (t + e) = line is t ++ (waveform (is t).iDataTx).take e := by
  have hlevel : ∀ e < duration p,
      (waveform (is t).iDataTx)[e]? = some (after is (t + e)).oUartTx := by
    intro e he
    rcases Nat.lt_or_ge e (latency p + cells p * bitTime p) with hcell | hend
    · exact level_cells h hw0 hw hC (Nat.le_of_lt hlt) hidle hrise hcell
    · obtain ⟨hstop, hrest⟩ := stopped_at h hw0 hw hC hlt hidle hrise
      rw [waveform_late _ hend he]
      unfold duration at he
      rcases Nat.eq_or_lt_of_le hend with heq | hgt
      · rw [← heq, hstop.line]
      · rw [show e = latency p + cells p * bitTime p + 1 by omega, hrest.line]
  induction e with
  | zero => simp
  | succ e ih =>
    rw [← Nat.add_assoc, line, history_succ, ← line, ih (by omega), List.take_add_one,
      hlevel e (by omega), List.append_assoc]
    rfl

theorem offers_sending {t : ℕ} (hidle : Idle is t) (hrise : rises is t = true) {e : ℕ}
    (he : 1 ≤ e) (he' : e ≤ duration p) :
    offers is (t + e) = offers is t ++ [(t, (is t).iDataTx)] :=
  h.offers_busy hrise he fun _ hk hke =>
    busy_at h hw0 hw hC hlt hidle hrise hk (Nat.lt_of_lt_of_le hke he')

/-- The words offered before clock `N`, each with the clock of its start bit. -/
def starts (is : ℕ → TxPins p.dataWidth) (N : ℕ) : List (ℕ × BitVec p.dataWidth) :=
  (offers is N).map fun o => (o.1 + latency p, o.2)

omit h hw0 hw hC hlt in
theorem map_snd_starts (N : ℕ) : (starts is N).map Prod.snd = (offers is N).map Prod.snd := by
  rw [starts, List.map_map]
  rfl

theorem starts_sending {t : ℕ} (hidle : Idle is t) (hrise : rises is t = true) {e : ℕ}
    (he : 1 ≤ e) (he' : e ≤ duration p) :
    starts is (t + e) = starts is t ++ [(t + latency p, (is t).iDataTx)] := by
  rw [starts, offers_sending h hw0 hw hC hlt hidle hrise he he', List.map_append]
  rfl

/-- The gaps between the frames on the line. -/
def gaps (is : ℕ → TxPins p.dataWidth) (N : ℕ) : List (ℕ × BitVec p.dataWidth) :=
  schedule (cells p * bitTime p) 0 (starts is N)

/-- The clock from which the line is free. -/
def free (is : ℕ → TxPins p.dataWidth) (N : ℕ) : ℕ :=
  freeFrom (cells p * bitTime p) 0 (starts is N)

omit h hw0 hw hC hlt in
theorem map_snd_gaps (N : ℕ) : (gaps is N).map Prod.snd = (offers is N).map Prod.snd := by
  rw [gaps, map_snd_schedule, map_snd_starts]

theorem gaps_sending {t : ℕ} (hidle : Idle is t) (hrise : rises is t = true) {e : ℕ}
    (he : 1 ≤ e) (he' : e ≤ duration p) :
    gaps is (t + e) = gaps is t ++ [(t + latency p - free is t, (is t).iDataTx)] := by
  rw [gaps, starts_sending h hw0 hw hC hlt hidle hrise he he', schedule_concat]
  rfl

/-- While the transmitter is at rest the line has shown every word offered, and is high. -/
theorem line_idle (N : ℕ) (hidle : Idle is N) :
    free is N ≤ N ∧
      line is N = wave frame (gaps is N) ++ List.replicate (N - free is N) true := by
  induction N using Nat.strong_induction_on with
  | h N ih =>
    rcases N with - | N
    · exact ⟨Nat.le_refl 0, rfl⟩
    · rcases phase h hw0 hw hC hlt N with hrest | ⟨t, e, rfl, he, he', hrest, hrise⟩
      · -- one more clock at rest
        have hr : rises is N = false := by
          by_contra hr
          have hbusy := busy_at h hw0 hw hC hlt hrest (by simpa using hr) (Nat.le_refl 1)
            (by unfold duration latency; omega)
          rw [hidle.resting.state0] at hbusy
          exact Bool.noConfusion hbusy
        obtain ⟨hfree, hline⟩ := ih N (Nat.lt_succ_self N) hrest
        have hstarts : starts is (N + 1) = starts is N := by
          rw [starts, offers_succ, hr]
          simp [starts]
        have hfree' : free is (N + 1) = free is N := by rw [free, hstarts, free]
        have hgaps : gaps is (N + 1) = gaps is N := by rw [gaps, hstarts, gaps]
        refine ⟨by omega, ?_⟩
        rw [line, history_succ, ← line, hline, hrest.resting.line, hgaps, hfree', List.append_assoc,
          ← List.replicate_succ', Nat.succ_sub hfree]
      · -- the end of a waveform
        have hlast : e + 1 = duration p := by
          by_contra hne
          have hbusy := busy_at h hw0 hw hC hlt hrest hrise (e := e + 1) (by omega) (by omega)
          rw [← Nat.add_assoc, hidle.resting.state0] at hbusy
          exact Bool.noConfusion hbusy
        have hd : 1 ≤ duration p := by omega
        obtain ⟨hfree, hline⟩ := ih t (by omega) hrest
        rw [Nat.add_assoc, hlast]
        have hfree' : free is (t + duration p) = t + latency p + cells p * bitTime p := by
          rw [free, starts_sending h hw0 hw hC hlt hrest hrise hd (Nat.le_refl _), freeFrom_concat]
        have htwo : t + duration p - free is (t + duration p) = 2 := by
          rw [hfree']
          unfold duration
          omega
        refine ⟨by unfold duration at hfree' ⊢; omega, ?_⟩
        rw [line_sending h hw0 hw hC hlt hrest hrise (Nat.le_refl _), hline, ← length_waveform,
          List.take_length, length_waveform, gaps_sending h hw0 hw hC hlt hrest hrise hd
          (Nat.le_refl _), wave_concat, htwo, waveform, Nat.sub_add_comm hfree,
          List.replicate_add]
        simp only [List.append_assoc]

/-- The line shows the words offered so far, the last of them perhaps not completely. -/
theorem line_prefix (N : ℕ) :
    (∃ g, line is N <+: wave frame (gaps is N) ++ List.replicate g true) ∧
      wave frame (gaps is N).dropLast <+: line is N := by
  rcases phase h hw0 hw hC hlt N with hrest | ⟨t, e, rfl, he, he', hrest, hrise⟩
  · obtain ⟨-, hline⟩ := line_idle h hw0 hw hC hlt N hrest
    refine ⟨⟨N - free is N, [], by rw [List.append_nil, hline]⟩, ?_⟩
    rw [hline]
    refine List.IsPrefix.trans ?_ (List.prefix_append _ _)
    rcases List.eq_nil_or_concat' (gaps is N) with hnil | ⟨fs, f, hfs⟩
    · rw [hnil]
      exact List.prefix_rfl
    · rw [hfs, List.dropLast_concat, wave_concat]
      exact List.prefix_append _ _
  · obtain ⟨hfree, hline⟩ := line_idle h hw0 hw hC hlt t hrest
    rw [line_sending h hw0 hw hC hlt hrest hrise (Nat.le_of_lt he'), hline,
      gaps_sending h hw0 hw hC hlt hrest hrise he (Nat.le_of_lt he'), List.dropLast_concat,
      wave_concat, Nat.sub_add_comm hfree, List.replicate_add]
    refine ⟨⟨2, ?_⟩, ?_⟩
    · have hwave : waveform (is t).iDataTx = List.replicate (latency p) true ++
          (frame (is t).iDataTx ++ List.replicate 2 true) := by
        rw [waveform, List.append_assoc]
      simp only [List.append_assoc, List.prefix_append_right_inj, hwave]
      exact List.take_prefix _ _
    · rw [List.append_assoc]
      exact List.prefix_append _ _

/-- The words are conveyed with stop bits of at least `stop` clocks exactly when the offers are
far enough apart. -/
theorem conveys_iff {stop : ℕ} (hstop : 0 < stop) :
    (∀ N, Conveys frame stop (line is N) ((offers is N).map Prod.snd)) ↔
      ∀ N, (offers is N).IsChain fun a b => a.1 + (cells p * bitTime p + stop) ≤ b.1 := by
  have hgaps : ∀ N, (∀ f ∈ (gaps is N).tail, stop ≤ f.1) ↔
      (offers is N).IsChain fun a b => a.1 + (cells p * bitTime p + stop) ≤ b.1 := by
    intro N
    rw [gaps, schedule_gaps hstop, starts, List.isChain_map]
    have hshift : ∀ a b : ℕ × BitVec p.dataWidth,
        a.1 + latency p + (cells p * bitTime p + stop) ≤ b.1 + latency p ↔
          a.1 + (cells p * bitTime p + stop) ≤ b.1 := fun a b => by omega
    simp only [hshift]
  constructor
  · intro hall N
    induction N with
    | zero => exact List.isChain_nil
    | succ N ih =>
      by_cases hrise : rises is N = true
      · -- the start bit of the last word is on the line `latency` clocks after its offer
        have hrest : Idle is N := by
          rcases phase h hw0 hw hC hlt N with hrest | ⟨t, e, rfl, he, he', hrest, hr⟩
          · exact hrest
          · rw [not_rises_at h hw0 hw hC hlt hrest hr he he'] at hrise
            exact Bool.noConfusion hrise
        have hpos := bitTime_pos hC
        have hlate : latency p + 1 ≤ duration p := by unfold duration; omega
        have hone : 1 ≤ duration p := by omega
        obtain ⟨hfree, hline⟩ := line_idle h hw0 hw hC hlt N hrest
        obtain ⟨fs, g, hsnd, htail, hpre, -⟩ := hall (N + (latency p + 1))
        have hsame : offers is (N + (latency p + 1)) = offers is (N + 1) := by
          rw [offers_sending h hw0 hw hC hlt hrest hrise (by omega) hlate,
            offers_sending h hw0 hw hC hlt hrest hrise (Nat.le_refl 1) hone]
        obtain ⟨l, hl⟩ := frame_cons (is N).iDataTx hC
        have hstart : (waveform (is N).iDataTx).take (latency p + 1) =
            List.replicate (latency p) true ++ [false] := by
          rw [waveform, hl, List.append_assoc, List.take_append]
          simp
        have hfs : fs = gaps is (N + 1) := by
          rw [gaps_sending h hw0 hw hC hlt hrest hrise (Nat.le_refl 1) hone]
          rw [line_sending h hw0 hw hC hlt hrest hrise hlate, hline, hstart] at hpre
          rw [Nat.sub_add_comm hfree]
          refine wave_unique (x := []) (k := g) (fun b => frame_cons b hC) ?_ ?_
          · rw [hsnd, map_snd_gaps, hsame, offers_succ, if_pos hrise, List.map_append]
            rfl
          · rwa [List.append_assoc, ← List.append_assoc (List.replicate _ true),
              ← List.replicate_add] at hpre
        rw [← hgaps, ← hfs]
        exact htail
      · rw [offers_succ, if_neg hrise, List.append_nil]
        exact ih
  · intro hchain N
    obtain ⟨⟨g, hpre⟩, hdrop⟩ := line_prefix h hw0 hw hC hlt N
    exact ⟨gaps is N, g, map_snd_gaps N, (hgaps N).2 (hchain N), hpre, hdrop⟩

/-- The transmitter is busy from the clock after an offer until the frame and a stop level are on
the line. -/
theorem busy_until_stop {n : ℕ} (hrise : rises is n = true) {m : ℕ} (hm : n + 1 ≤ m) :
    (after is m).oState0 = true ∨ ∃ g, List.replicate g true ++ frame (is n).iDataTx ++ [true] <+:
      history (fun k => (after is (n + k)).oUartTx) (m + 1 - n) := by
  have hidle : Idle is n := by
    rcases phase h hw0 hw hC hlt n with hrest | ⟨t, e, rfl, he, he', hrest, hr⟩
    · exact hrest
    · rw [not_rises_at h hw0 hw hC hlt hrest hr he he'] at hrise
      exact Bool.noConfusion hrise
  obtain ⟨e, rfl⟩ := Nat.exists_eq_add_of_le (show n ≤ m by omega)
  rcases Nat.lt_or_ge e (duration p) with hin | hout
  · exact Or.inl (busy_at h hw0 hw hC hlt hidle hrise (by omega) hin)
  · right
    refine ⟨latency p, ?_⟩
    have hwave : history (fun k => (after is (n + k)).oUartTx) (duration p) =
        waveform (is n).iDataTx := by
      have hline := line_sending h hw0 hw hC hlt hidle hrise (Nat.le_refl _)
      rw [line, history_add, ← line, ← length_waveform, List.take_length] at hline
      rw [← length_waveform]
      exact List.append_cancel_left hline
    obtain ⟨k, hk⟩ := Nat.exists_eq_add_of_le (show duration p ≤ n + e + 1 - n by omega)
    rw [hk, history_add, hwave, waveform, List.append_assoc, List.append_assoc, List.append_assoc,
      List.prefix_append_right_inj, List.prefix_append_right_inj]
    exact ⟨[true] ++ _, rfl⟩

end Runs

/-! ### Periods beyond the counter -/

/-- With a period of more than twice the range of the counter there is no pulse: the transmitter
has taken a word and stays busy, with the line high. -/
structure Hung (s : UartTx p) : Prop where
  state : s.rCurrentState = .stateStart ∨ s.rCurrentState = .stateData
  valid : s.baudValid = true
  pulse : s.baudPulse = false
  count : s.rTxCnt = 0
  line : s.oUartTx = true
  state0 : s.oState0 = true

section Hung

variable {s : UartTx p} {i : TxPins p.dataWidth} (hw0 : 0 < p.dataWidth)
  (hbig : 65536 < p.cycle / 2)
include hw0 hbig

theorem Hung.step (hs : Hung s) : Hung (s.step i) := by
  have hne : s.rCurrentState ≠ .stateIdle := by
    rcases hs.state with h | h <;> rw [h] <;> decide
  have hout : s.output i = s := output_quiet hne hs.pulse
  refine ⟨?_, ?_, ?_, ?_, ?_, ?_⟩
  · show s.nextState = _ ∨ s.nextState = _
    rw [nextState, if_neg (by simp [hs.valid])]
    split_ifs
    · right
      rcases hs.state with h | h
      · rw [rNextState, h]
      · rw [rNextState, h]
        simp only [hs.count]
        rw [if_neg (by simp only [BitVec.ofNat_eq_ofNat, BitVec.toNat_ofNat]; omega)]
    · exact hs.state
  · rw [UartTx.step, hout, hs.valid]
  · show s.nextBaudPulse = false
    have := s.baudCnt.isLt
    exact decide_eq_false (by omega)
  · rw [UartTx.step, hout, hs.count]
  · rw [UartTx.step, hout, hs.line]
  · rw [UartTx.step, hout, hs.state0]

variable {is : ℕ → TxPins p.dataWidth} (h : Handshake is)
include h

/-- Then the line stays high, and at most one word is ever offered. -/
theorem hung_phase (N : ℕ) : line is N = List.replicate N true ∧
    ((Idle is N ∧ offers is N = []) ∨
      ∃ t, offers is N = [(t, (is t).iDataTx)] ∧ (after is N).oUartTx = true ∧
        (after is N).oState0 = true ∧ Hung (after is (N + 1))) := by
  have hC : 8 ≤ p.cycle := by omega
  induction N with
  | zero => exact ⟨rfl, Or.inl ⟨idle_zero, rfl⟩⟩
  | succ N ih =>
    obtain ⟨hline, hphase⟩ := ih
    have hhigh : (after is N).oUartTx = true := by
      rcases hphase with ⟨hidle, -⟩ | ⟨t, -, h1, -, -⟩
      · exact hidle.resting.line
      · exact h1
    refine ⟨by rw [line, history_succ, ← line, hline, hhigh, ← List.replicate_succ'], ?_⟩
    rcases hphase with ⟨hidle, hnil⟩ | ⟨t, hone, h1, h0, hhung⟩
    · by_cases hr : rises is N = true
      · right
        obtain ⟨hacc, hpins⟩ := accepted_at h hC hidle hr
        refine ⟨N, by rw [offers_succ, if_pos hr, hnil]; rfl, by rw [hacc]; rfl,
          by rw [hacc]; rfl, ?_⟩
        have hstart : after is (N + 1 + 1) = registers (is N).iDataTx 0 1 := by
          show (after is (N + 1)).step (is (N + 1)) = _
          rw [hacc, hpins, step_accepted rfl hC]
        have hdriven : driven p 0 1 = 0 := if_neg (by omega)
        rw [hstart, registers, hdriven]
        exact ⟨Or.inl rfl, rfl, decide_eq_false (show ¬1 = p.cycle / 2 by omega),
          congrArg (BitVec.ofNat 4) (Nat.min_zero _), rfl, rfl⟩
      · left
        refine ⟨hidle.wait (by simpa using hr) hC, ?_⟩
        rw [offers_succ, if_neg hr, hnil]
        rfl
    · right
      refine ⟨t, ?_, hhung.line, hhung.state0, hhung.step hw0 hbig⟩
      rw [offers_succ, h.not_rises h0, hone]
      rfl

end Hung

end UartTx

end Vcil.Rtl
