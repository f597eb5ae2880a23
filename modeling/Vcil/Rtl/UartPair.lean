import Mathlib.Tactic.Set
import Vcil.Rtl.UartRxFrames
import Vcil.Rtl.UartRxParity
import Vcil.Rtl.UartTxRuns

/-!
# A transmitter and a receiver of the same parameters

`o_uart_tx` of the one is `i_uart_rx` of the other, and one word is sent over the line.

* `Sends is t b`: of all that the pins show, the transmitter takes the word `b`, in clock `t`;
* `offer t b`: a source that offers `b` and nothing else, which gives the same line;
* `UartPair`: the two machines over the pins of the transmitter;
* `line_single`: the line with one word on it;
* `agree_iff`: the receiver shows the word exactly when there is no parity bit.
-/

namespace Vcil.Rtl

open Clocked TxPins

namespace UartTx

variable {p : UartParams}

/-- The transmitter takes the word `b` in clock `t`, and no other word before or after it.  It is
in `STATE_IDLE` for one more clock, in which it may be shown the same word. -/
structure Sends (is : ℕ → TxPins p.dataWidth) (t : ℕ) (b : BitVec p.dataWidth) : Prop where
  taken : (after is t).rCurrentState = .stateIdle ∧ is t = ⟨b, true⟩
  alone : ∀ n, (after is n).rCurrentState = .stateIdle → (is n).iDataValid = true →
    n = t ∨ n = t + 1 ∧ (is n).iDataTx = b

/-- The word `b` in clocks `t` and `t + 1`. -/
def offer {w : ℕ} (t : ℕ) (b : BitVec w) (n : ℕ) : TxPins w := ⟨b, n = t ∨ n = t + 1⟩

section Offer

variable {t : ℕ} {b : BitVec p.dataWidth}

theorem offer_valid {n : ℕ} : (offer t b n).iDataValid = true ↔ n = t ∨ n = t + 1 :=
  decide_eq_true_iff

theorem offer_rises (n : ℕ) : rises (offer t b) n = true ↔ n = t := by
  cases n with
  | zero =>
    rw [rises, offer_valid]
    omega
  | succ n =>
    rw [rises, Bool.and_eq_true, Bool.not_eq_true', ← Bool.not_eq_true, offer_valid, offer_valid]
    omega

theorem offer_idle (hC : 8 ≤ p.cycle) {n : ℕ} (hn : n ≤ t) : Idle (offer t b) n := by
  induction n with
  | zero => exact idle_zero
  | succ n ih =>
    refine (ih (by omega)).wait ?_ hC
    rw [Bool.eq_false_iff]
    intro hr
    have := (offer_rises n).1 hr
    omega

theorem offer_handshake (hC : 8 ≤ p.cycle) : Handshake (offer t b) := by
  have hidle := offer_idle (b := b) hC (Nat.le_refl t)
  have haccept : after (offer t b) (t + 1) = accepted b :=
    hidle.resting.accept (offer_valid.2 (Or.inl rfl)) hC
  constructor
  · intro n hr
    obtain rfl := (offer_rises n).1 hr
    exact hidle.resting.state0
  · intro n hv hfree
    rcases offer_valid.1 hv with rfl | rfl
    · simp [offer]
    · rw [haccept] at hfree
      exact Bool.noConfusion hfree
  · intro n hv hbusy _
    rcases offer_valid.1 hv with rfl | rfl
    · rw [hidle.resting.state0] at hbusy
      exact Bool.noConfusion hbusy
    · exact decide_eq_false (by omega)

theorem offer_sends (hC : 8 ≤ p.cycle) : Sends (offer t b) t b where
  taken := ⟨(offer_idle hC (Nat.le_refl t)).resting.state, by simp [offer]⟩
  alone n _ hv := (offer_valid.1 hv).imp_right fun hn => ⟨hn, rfl⟩

/-- The registers agree but for `o_state_0`. -/
def Alike (s s' : UartTx p) : Prop := ∃ x, s' = { s with oState0 := x }

/-- The pins matter in `STATE_IDLE` only, and there a word taken already may be shown again. -/
theorem Alike.step {s s' : UartTx p} (h : Alike s s') {i i' : TxPins p.dataWidth}
    (hidle : s.rCurrentState = .stateIdle → i = i' ∨
      i.iDataValid = false ∧ i'.iDataValid = false ∨
      s.baudValid = true ∧ i.iDataValid = false ∧ i' = ⟨s.rDataTx, true⟩) :
    Alike (s.step i) (s'.step i') := by
  obtain ⟨x, rfl⟩ := h
  have hclock : UartTx.step { s with oState0 := x } i' =
    { UartTx.output { s with oState0 := x } i' with
      baudCnt := s.nextBaudCnt
      baudPulse := s.nextBaudPulse
      rCurrentState := s.nextState } := rfl
  rw [hclock]
  cases hs : s.rCurrentState with
  | stateIdle =>
    rcases hidle hs with rfl | ⟨hv, hv'⟩ | ⟨hb, hv, rfl⟩
    · refine ⟨(s.step i).oState0, ?_⟩
      simp only [UartTx.step, output, hs]
    · refine ⟨false, ?_⟩
      simp only [UartTx.step, output, hs, hv, hv', Bool.false_eq_true, if_false]
    · refine ⟨true, ?_⟩
      simp only [UartTx.step, output, hs, hv, if_true, Bool.false_eq_true, if_false]
      rw [← hb]
  | stateStart | stateData | stateParity | stateEnd =>
    refine ⟨x, ?_⟩
    simp only [UartTx.step, output, hs]
    split_ifs <;> rfl

variable {is : ℕ → TxPins p.dataWidth}

/-- Whatever else its source shows, a transmitter that takes one word does what it does for the
source that offers nothing else. -/
theorem Sends.alike (h : Sends is t b) (n : ℕ) : Alike (after is n) (after (offer t b) n) ∧
    (n = t + 1 → (after is n).baudValid = true ∧ (after is n).rDataTx = b) := by
  induction n with
  | zero => exact ⟨⟨_, rfl⟩, fun hn => absurd hn (Nat.succ_ne_zero t).symm⟩
  | succ n ih =>
    obtain ⟨halike, hagain⟩ := ih
    constructor
    · refine halike.step fun hidle => ?_
      by_cases hv : (is n).iDataValid = true
      · left
        rcases h.alone n hidle hv with rfl | ⟨rfl, hb⟩
        · simp [h.taken.2, offer]
        · simp [offer, ← hb, ← hv]
      · rw [Bool.not_eq_true] at hv
        right
        rcases eq_or_ne n (t + 1) with rfl | hne
        · obtain ⟨hvalid, hdata⟩ := hagain rfl
          exact Or.inr ⟨hvalid, hv, by simp [offer, hdata]⟩
        · refine Or.inl ⟨hv, ?_⟩
          rw [← Bool.not_eq_true, offer_valid]
          rintro (rfl | heq)
          · rw [h.taken.2] at hv
            exact Bool.noConfusion hv
          · exact hne heq
    · intro hn
      obtain rfl : n = t := Nat.succ.inj hn
      show ((after is n).step (is n)).baudValid = true ∧ ((after is n).step (is n)).rDataTx = b
      rw [h.taken.2]
      simp only [UartTx.step, output, h.taken.1, if_true, and_self]

theorem Sends.line (h : Sends is t b) (n : ℕ) :
    (after is n).oUartTx = (after (offer t b) n).oUartTx := by
  obtain ⟨⟨x, hx⟩, -⟩ := h.alike n
  rw [hx]

end Offer

end UartTx

/-- The two machines. -/
structure UartPair (p : UartParams) where
  tx : UartTx p
  rx : UartRx p

namespace UartPair

variable {p : UartParams}

/-- One rising clock edge. -/
def step (c : UartPair p) (i : TxPins p.dataWidth) : UartPair p where
  tx := c.tx.step i
  rx := c.rx.step c.tx.oUartTx

/-- The words the receiver shows in the first `N` clocks from reset, one entry a clock. -/
def pulses (is : ℕ → TxPins p.dataWidth) (N : ℕ) : List (BitVec p.dataWidth) :=
  emits step (fun c => c.rx.done?) ⟨UartTx.reset, UartRx.reset⟩ (history is N)

section Runs

variable {is : ℕ → TxPins p.dataWidth}

theorem trace_eq (N : ℕ) : trace step ⟨UartTx.reset, UartRx.reset⟩ is N =
    ⟨UartTx.after is N, UartRx.after UartRx.reset (fun n => (UartTx.after is n).oUartTx) N⟩ := by
  induction N with
  | zero => rfl
  | succ N ih =>
    show step (trace step _ is N) (is N) = _
    rw [ih]
    rfl

/-- The receiver sees the line of the transmitter. -/
theorem pulses_eq (N : ℕ) : pulses is N =
    UartRx.shown UartRx.reset (fun n => (UartTx.after is n).oUartTx) N := by
  induction N with
  | zero => rfl
  | succ N ih =>
    rw [pulses, history_succ, emits_append, ← pulses, ih, UartRx.shown_succ, ← trace_eq_run,
      trace_eq]
    simp only [emits, List.append_nil]
    rfl

variable (h : UartTx.Handshake is) (hw0 : 0 < p.dataWidth) (hw : p.dataWidth < 15)
  (hC : 8 ≤ p.cycle) (hlt : p.cycle / 2 < UartTx.bitTime p) {t : ℕ}
  (hone : ∀ n, rises is n = true ↔ n = t)
include h hw0 hw hC hlt hone

/-- The line with one word on it. -/
theorem line_single (n : ℕ) : (UartTx.after is n).oUartTx =
    extend true (List.replicate (t + UartTx.latency p) true ++ UartTx.frame (is t).iDataTx) n := by
  have hphase := UartTx.phase h hw0 hw hC hlt
  have hidle : UartTx.Idle is t := by
    rcases hphase t with hrest | ⟨t', e, he, he1, he', hrest, hr⟩
    · exact hrest
    · have := (hone t').1 hr
      omega
  have hframe := UartTx.length_frame (is t).iDataTx
  rcases hphase n with hrest | ⟨t', e, rfl, he1, he', hrest, hr⟩
  · -- at rest before the offer or after the frame
    rw [hrest.resting.line]
    rcases Nat.lt_or_ge n (t + UartTx.latency p) with hlt' | hge
    · rw [extend_append_left true (by simpa using hlt'), extend_replicate]
    · have hend : t + UartTx.duration p ≤ n := by
        by_contra hin
        obtain ⟨e, rfl⟩ := Nat.exists_eq_add_of_le (show t ≤ n by omega)
        have hbusy := UartTx.busy_at h hw0 hw hC hlt hidle ((hone t).2 rfl) (e := e)
          (by unfold UartTx.latency at hge; omega) (by omega)
        rw [hrest.resting.state0] at hbusy
        exact Bool.noConfusion hbusy
      rw [extend_end]
      rw [List.length_append, List.length_replicate, hframe]
      unfold UartTx.duration at hend
      omega
  · -- in the waveform
    obtain rfl := (hone t').1 hr
    have hline := UartTx.line_sending h hw0 hw hC hlt hrest hr (Nat.le_refl _)
    rw [UartTx.line, history_add, ← UartTx.line, ← UartTx.length_waveform (is t').iDataTx,
      List.take_length] at hline
    have hwave := List.append_cancel_left hline
    have hlevel : (UartTx.after is (t' + e)).oUartTx =
        extend true (UartTx.waveform (is t').iDataTx) e := by
      rw [← hwave, UartTx.length_waveform, extend, List.getD_eq_getElem?_getD]
      simp [history, he']
    have hshift := extend_append_right true (List.replicate t' true)
      (List.replicate (UartTx.latency p) true ++ UartTx.frame (is t').iDataTx) e
    rw [List.length_replicate, ← List.append_assoc, ← List.replicate_add] at hshift
    rw [hlevel, hshift, UartTx.waveform, extend_append_replicate]

/-- Without parity the word is shown, once. -/
theorem pulses_plain (hC' : 32 ≤ p.cycle) (hmax : p.cycle ≤ 65536) (hon : p.parityOn = 0) {N : ℕ}
    (hN : t + UartTx.latency p + ((p.dataWidth + 2) * p.cycle + 9) ≤ N) :
    pulses is N = [(is t).iDataTx] := by
  have htime : UartTx.bitTime p = p.cycle := Nat.min_eq_left hmax
  have hframe := UartTx.frame_eq hon hlt (is t).iDataTx
  rw [htime] at hframe
  have hcells : (p.dataWidth + 2) * p.cycle = (p.dataWidth + 1) * p.cycle + p.cycle := by ring
  have hlen : (List.replicate (t + UartTx.latency p) true ++
      UartRx.frame p.cycle (is t).iDataTx 0).length =
        t + UartTx.latency p + (p.dataWidth + 1) * p.cycle := by
    rw [List.length_append, List.length_replicate, UartRx.length_frame, Nat.add_zero]
  obtain ⟨k, rfl⟩ := Nat.exists_eq_add_of_le (show (List.replicate (t + UartTx.latency p) true ++
    UartRx.frame p.cycle (is t).iDataTx 0).length ≤ N by omega)
  have hidle : UartRx.frame p.cycle (is t).iDataTx 0 ++ List.replicate k true =
      UartRx.frame p.cycle (is t).iDataTx k := by
    simp [UartRx.frame]
  have ht : UartRx.Timing p p.cycle k :=
    ⟨fun j _ => ⟨by omega, by rw [Nat.succ_mul]; omega⟩, by omega, by omega, by omega⟩
  obtain ⟨hquiet, hready⟩ := UartRx.idle_pulses (UartRx.ready_reset (p := p)) (by omega)
    (t + UartTx.latency p)
  have hword := UartRx.frame_pulses (b := (is t).iDataTx) ht hon hw0 (by omega) (by omega) hmax hready
  rw [UartRx.pulses] at hquiet hword
  rw [pulses_eq, funext (line_single h hw0 hw hC hlt hone), hframe, UartRx.shown,
    history_extend_add, List.append_assoc, hidle, UartRx.pulses, emits_append, hquiet, hword]
  rfl

/-- With parity the word is not shown. -/
theorem pulses_parity (hC' : 32 ≤ p.cycle) (hmax : p.cycle ≤ 65536) (hon : p.parityOn ≠ 0)
    (htype : p.parityType ≤ 1) {N : ℕ}
    (hN : t + UartTx.latency p + ((p.dataWidth + 3) * p.cycle + 8) ≤ N) : pulses is N = [] := by
  have htime : UartTx.bitTime p = p.cycle := Nat.min_eq_left hmax
  have hdata : UartTx.dataCells p = p.dataWidth := if_pos hlt
  have hcells : UartTx.cells p = p.dataWidth + 2 := by rw [UartTx.cells, if_neg hon, hdata]
  have hmul : (p.dataWidth + 3) * p.cycle = (p.dataWidth + 2) * p.cycle + p.cycle := by ring
  set F := t + UartTx.latency p with hF
  set line := extend true (List.replicate F true ++ UartTx.frame (is t).iDataTx) with hline
  -- the levels of the line
  have hbefore : ∀ k < F, line k = true := fun k hk => by
    rw [hline, extend_append_left true (by simpa using hk), extend_replicate]
  have hcell : ∀ j < p.dataWidth + 2, ∀ x < p.cycle,
      line (F + (j * p.cycle + x)) = UartTx.level (is t).iDataTx j := by
    intro j hj x hx
    have hshift := extend_append_right true (List.replicate F true) (UartTx.frame (is t).iDataTx)
      (j * p.cycle + x)
    rw [List.length_replicate] at hshift
    rw [hline, hshift, extend, List.getD_eq_getElem?_getD, UartTx.frame, htime,
      getElem?_hold (j := j) _ (Nat.le_add_right _ _) (by rw [Nat.succ_mul]; omega), UartTx.levels,
      hcells]
    simp [hj]
  have hafter : ∀ k, F + (p.dataWidth + 2) * p.cycle ≤ k → line k = true := by
    intro k hk
    rw [hline, extend_end]
    rw [List.length_append, List.length_replicate, UartTx.length_frame, hcells, htime]
    exact hk
  -- the receiver detects the frame and rejects it
  obtain ⟨harmed, hnone⟩ := UartRx.armed_first (UartRx.ready_reset (p := p)) (by omega) hbefore
  obtain ⟨hD, hsame⟩ := UartRx.detected_after (n := F) (fun k hk => by
    have h0 := hcell 0 (by omega) k (by omega)
    rwa [Nat.zero_mul, Nat.zero_add] at h0) (Or.inl (harmed _ (Nat.le_refl _)))
  have hread : UartRx.Reads p line (F + 7 + p.cycle / 2 - 1) (is t).iDataTx := by
    constructor
    · have h0 := hcell 0 (by omega) (6 + p.cycle / 2) (by omega)
      rwa [show F + (0 * p.cycle + (6 + p.cycle / 2)) = F + 7 + p.cycle / 2 - 1 by omega] at h0
    · intro k hk
      have hk' := hcell (k + 1) (by omega) (6 + p.cycle / 2) (by omega)
      rw [show F + ((k + 1) * p.cycle + (6 + p.cycle / 2)) =
        F + 7 + p.cycle / 2 - 1 + (k + 1) * p.cycle by omega] at hk'
      rw [hk', UartTx.level, if_neg (Nat.succ_ne_zero k), if_pos (by omega), Nat.add_sub_cancel]
  have hbad : (UartTx.paritySum (is t).iDataTx p.dataWidth).toNat +
      (line (F + 7 + p.cycle / 2 - 1 + (p.dataWidth + 1) * p.cycle)).toNat ≠ p.parityType := by
    have hpar := hcell (p.dataWidth + 1) (by omega) (6 + p.cycle / 2) (by omega)
    rw [show F + ((p.dataWidth + 1) * p.cycle + (6 + p.cycle / 2)) =
      F + 7 + p.cycle / 2 - 1 + (p.dataWidth + 1) * p.cycle by omega] at hpar
    rw [hpar, UartTx.level, if_neg (Nat.succ_ne_zero _), if_neg (by omega), if_pos (by omega)]
    exact UartRx.parityLevel_rejected _ hlt htype
  have hld : (UartRx.after (UartRx.reset : UartRx p) line (F + 7)).oLdParity = false := by
    have hall : ∀ k ≤ F + 7, (UartRx.after (UartRx.reset : UartRx p) line k).oLdParity = false := by
      intro k hk
      induction k with
      | zero => rfl
      | succ k ih =>
        exact (UartRx.step_idle_parity (harmed k (by omega)).state).2.trans (ih (by omega))
    exact hall _ (Nat.le_refl _)
  obtain ⟨hfinish, hquiet⟩ := UartRx.rejected_after hD hld hon hw0 (by omega) (by omega) hmax hread
    hbad
  have hrest := (UartRx.at_rest (show 6 ≤ p.cycle by omega) (by omega) (Or.inr hfinish)
    (fun k hk => hafter k (by omega)) (n := N) (by omega)).2
  rw [pulses_eq, funext (line_single h hw0 hw hC hlt hone), ← hF, ← hline, hrest,
    Nat.add_assoc (F + 7), hquiet _ (Nat.le_refl _), hsame, hnone]

end Runs

/-! ### Main result -/

theorem pulses_offer {t : ℕ} {b : BitVec p.dataWidth} {is : ℕ → TxPins p.dataWidth}
    (h : UartTx.Sends is t b) (N : ℕ) : pulses is N = pulses (UartTx.offer t b) N := by
  rw [pulses_eq, pulses_eq, funext h.line]

/-- One word sent on an otherwise idle line is shown by the receiver, in one clock, exactly when
there is no parity bit. -/
theorem agree_iff (p : UartParams) (hw : 5 ≤ p.dataWidth ∧ p.dataWidth ≤ 9)
    (hparity : p.parityOn ≤ 1 ∧ p.parityType ≤ 1) (hC : 32 ≤ p.cycle ∧ p.cycle ≤ 65536)
    (is : ℕ → TxPins p.dataWidth) (t : ℕ) (b : BitVec p.dataWidth) (h : UartTx.Sends is t b) :
    (∃ T, ∀ N, T ≤ N → pulses is N = [b]) ↔ p.parityOn = 0 := by
  have hlt : p.cycle / 2 < UartTx.bitTime p := by
    rw [UartTx.bitTime, Nat.min_eq_left hC.2]
    omega
  have hoffer := UartTx.offer_handshake (t := t) (b := b) (show 8 ≤ p.cycle by omega)
  constructor
  · rintro ⟨T, hall⟩
    by_contra hon
    have hnone := pulses_parity hoffer (by omega) (by omega) (by omega) hlt UartTx.offer_rises
      hC.1 hC.2 hon hparity.2 (Nat.le_max_right T _)
    rw [← pulses_offer h, hall _ (Nat.le_max_left T _)] at hnone
    cases hnone
  · intro hon
    have hword := fun N => pulses_plain (N := N) hoffer (by omega) (by omega) (by omega) hlt
      UartTx.offer_rises hC.1 hC.2 hon
    exact ⟨_, fun N hN => (pulses_offer h N).trans (hword N hN)⟩

theorem agree_iff_offer : (∃ T, ∀ N, T ≤ N →
    pulses (p := ⟨868, 8, 0, 0⟩) (UartTx.offer 0 0xa5) N = [0xa5]) ↔ 0 = 0 :=
  agree_iff ⟨868, 8, 0, 0⟩ (by decide) (by decide) (by decide) (UartTx.offer 0 0xa5) 0 0xa5
    (UartTx.offer_sends (by decide))

/-- With an even parity bit nothing is shown. -/
theorem not_agree_even : ¬∃ T, ∀ N, T ≤ N →
    pulses (p := ⟨868, 8, 1, 0⟩) (UartTx.offer 0 0xa5) N = [0xa5] := by
  rintro ⟨T, hall⟩
  have hnone := pulses_parity (p := ⟨868, 8, 1, 0⟩) (UartTx.offer_handshake (t := 0) (b := 0xa5) (by decide))
    (by decide) (by decide) (by decide) (by decide) UartTx.offer_rises (by decide) (by decide)
    (by decide) (by decide) (Nat.le_max_right T _)
  rw [hall _ (Nat.le_max_left T _)] at hnone
  cases hnone

end UartPair

end Vcil.Rtl
