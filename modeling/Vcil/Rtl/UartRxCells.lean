import Mathlib.Algebra.Order.Group.Unbundled.Int
import Vcil.Rtl.UartRx

/-!
# Bit cells of `uart_rx`

The receiver measures time from the fifth low sample on, in its own bit period `cycle`.

* `Receiving b j r s`: the receiver in clock `r` of its bit cell `j`, where cell 0 is the start
  bit, cells 1 to `DATA_WIDTH` are the data bits and, without parity, the next cell is `STATE_END`;
* `Armed`, `Detected`, `Finished`, `Aborted`: the receiver between frames.
-/

namespace Vcil.Rtl.UartRx

open Clocked

variable {p : UartParams} {s : UartRx p} {i : Bool}

/-! ### The start detector -/

@[simp] theorem step_baudCnt : (s.step i).baudCnt = s.nextBaudCnt := rfl

@[simp] theorem step_baudPulse : (s.step i).baudPulse = s.nextBaudPulse := rfl

@[simp] theorem step_rCurrentState : (s.step i).rCurrentState = s.nextState := rfl

theorem step_flag_zero : (s.step i).rFlagRcvStart.getLsbD 0 = s.syncUartRx := by
  have h := BitVec.getLsbD_append (x := s.rFlagRcvStart.extractLsb' 0 4)
    (y := BitVec.ofBool s.syncUartRx) (i := 0)
  exact h.trans (by simp)

theorem step_flag_succ {k : ℕ} (hk : k < 4) :
    (s.step i).rFlagRcvStart.getLsbD (k + 1) = s.rFlagRcvStart.getLsbD k := by
  have h := BitVec.getLsbD_append (x := s.rFlagRcvStart.extractLsb' 0 4)
    (y := BitVec.ofBool s.syncUartRx) (i := k + 1)
  exact h.trans (by simp [hk])

/-! ### What one clock does in each state -/

theorem step_idle (hst : s.rCurrentState = .stateIdle) :
    (s.step i).baudValid = (decide (s.rFlagRcvStart = 0) || s.baudValid) ∧
      (s.step i).rRcvCnt = 0 ∧ (s.step i).rDataRcv = 0 ∧ (s.step i).done? = none ∧
      (s.step i).oRxDone = false := by
  by_cases hf : s.rFlagRcvStart = 0 <;> simp [step, output, hst, done?, hf]

theorem step_start (hst : s.rCurrentState = .stateStart)
    (hlow : (s.baudPulse && s.syncUartRx) = false) :
    (s.step i).baudValid = s.baudValid ∧ (s.step i).rRcvCnt = s.rRcvCnt ∧
      (s.step i).rDataRcv = s.rDataRcv ∧ (s.step i).done? = s.done? := by
  simp [step, output, hst, hlow, done?]

theorem step_data (hst : s.rCurrentState = .stateData) :
    (s.step i).baudValid = s.baudValid ∧
      (s.step i).rRcvCnt = (if s.baudPulse then s.rRcvCnt + 1 else s.rRcvCnt) ∧
      (s.step i).rDataRcv = (if s.baudPulse then s.shiftedData else s.rDataRcv) ∧
      (s.step i).done? = s.done? := by
  cases hp : s.baudPulse <;> simp [step, output, hst, hp, done?]

theorem step_end (hst : s.rCurrentState = .stateEnd) (hon : p.parityOn = 0) :
    (s.step i).baudValid = (!decide (s.baudCnt = 0) && s.baudValid) ∧
      (s.step i).rRcvCnt = s.rRcvCnt ∧ (s.step i).rDataRcv = s.rDataRcv ∧
      (s.step i).done? = (if s.baudPulse then some s.rDataRcv else none) := by
  cases hp : s.baudPulse <;> by_cases hc : s.baudCnt = 0 <;>
    simp [step, output, hst, hp, hon, hc, done?]

/-! ### Bit cells -/

/-- The state during bit cell `j`. -/
def cellState (p : UartParams) (j : ℕ) : RxState :=
  if j = 0 then .stateStart else if j ≤ p.dataWidth then .stateData else .stateEnd

/-- The level of bit cell `j`. -/
def cellBit (b : BitVec p.dataWidth) (j : ℕ) : Bool := decide (j ≠ 0) && b.getLsbD (j - 1)

/-- The number of data bits sampled before clock `r` of bit cell `j`. -/
def taken (p : UartParams) (j r : ℕ) : ℕ :=
  min p.dataWidth (if p.cycle / 2 < r then j else j - 1)

/-- The receiver in clock `r` of bit cell `j`; it has seen the bits of `b` up to there.  The
clocks of a cell are counted from 1 to `cycle`, the baud counter shows 0 in the last of them. -/
structure Receiving (b : BitVec p.dataWidth) (j r : ℕ) (s : UartRx p) : Prop where
  valid : s.baudValid = true
  cnt : s.baudCnt.toNat = if r = p.cycle then 0 else r
  pulse : s.baudPulse = decide (r = p.cycle / 2)
  state : s.rCurrentState = cellState p j
  rcvCnt : s.rRcvCnt.toNat = taken p j r
  dataRcv : s.rDataRcv = b <<< (p.dataWidth - taken p j r)
  done : s.done? = if j = p.dataWidth + 1 ∧ r = p.cycle / 2 + 1 then some b else none

/-- Sampling bit `n` of `b` moves it in above the bits sampled before. -/
theorem shiftedData_eq {b : BitVec p.dataWidth} {n : ℕ} (hn : n < p.dataWidth)
    (hsync : s.syncUartRx = b.getLsbD n) (hdata : s.rDataRcv = b <<< (p.dataWidth - n)) :
    s.shiftedData = b <<< (p.dataWidth - (n + 1)) := by
  apply BitVec.eq_of_getLsbD_eq
  intro k hk
  rw [shiftedData, BitVec.getLsbD_extractLsb', BitVec.getLsbD_cons, hsync, hdata]
  simp only [BitVec.getLsbD_shiftLeft, hk, decide_true, Bool.true_and]
  rcases Nat.lt_or_ge (1 + k) p.dataWidth with hlt | hge
  · rw [if_neg (by omega)]
    by_cases hlow : k < p.dataWidth - (n + 1)
    · have h1 : 1 + k < p.dataWidth - n := by omega
      simp [hlow, h1]
    · have h1 : ¬1 + k < p.dataWidth - n := by omega
      have h2 : 1 + k - (p.dataWidth - n) = k - (p.dataWidth - (n + 1)) := by omega
      simp [hlow, h1, h2, hlt]
  · rw [if_pos (by omega)]
    have h1 : ¬k < p.dataWidth - (n + 1) := by omega
    have h2 : k - (p.dataWidth - (n + 1)) = n := by omega
    simp [h1, h2]

section Cells

variable {b : BitVec p.dataWidth} {j r : ℕ}

theorem taken_pulse (hj : 0 < j) (hw : j ≤ p.dataWidth) :
    taken p j (p.cycle / 2) = j - 1 ∧ taken p j (p.cycle / 2 + 1) = j := by
  simp only [taken]
  constructor
  · rw [if_neg (by omega)]; omega
  · rw [if_pos (by omega)]; omega

theorem taken_succ (hr : r ≠ p.cycle / 2) : taken p j (r + 1) = taken p j r := by
  have : p.cycle / 2 < r + 1 ↔ p.cycle / 2 < r := by omega
  simp only [taken, this]

theorem taken_end : taken p (p.dataWidth + 1) r = p.dataWidth := by
  simp only [taken]
  split <;> omega

theorem taken_start : taken p 0 r = 0 := by
  simp [taken]

/-- The counter and the state register inside a bit cell. -/
theorem clock_inside (hv : s.baudValid = true)
    (hs : s.baudCnt.toNat = if r = p.cycle then 0 else r) (hr : 1 ≤ r) (hrC : r < p.cycle)
    (hC : p.cycle ≤ 65536) :
    s.nextBaudCnt.toNat = (if r + 1 = p.cycle then 0 else r + 1) ∧
      s.nextBaudPulse = decide (r + 1 = p.cycle / 2) ∧ s.nextState = s.rCurrentState ∧
      s.baudCnt ≠ 0 := by
  have hcnt : s.baudCnt.toNat = r := by rw [hs, if_neg (by omega)]
  have hne : s.baudCnt ≠ 0 := by
    intro h0
    rw [h0] at hcnt
    simp at hcnt
    omega
  refine ⟨?_, ?_, ?_, hne⟩
  · simp only [nextBaudCnt, hv, hcnt, Bool.not_true, Bool.false_eq_true, if_false]
    by_cases hlast : r + 1 = p.cycle
    · simp [hlast]
    · rw [if_neg hlast, if_neg hlast, BitVec.toNat_add, hcnt]
      have h1 : (1 : BitVec 16).toNat = 1 := rfl
      omega
  · simp only [nextBaudPulse, hcnt]
  · rw [nextState, if_neg (by simp [hv]), if_neg hne]

/-- The counter and the state register in the last clock of a bit cell. -/
theorem clock_last (hv : s.baudValid = true)
    (hs : s.baudCnt.toNat = if p.cycle = p.cycle then 0 else p.cycle) (hC : 2 ≤ p.cycle) :
    s.nextBaudCnt.toNat = (if 1 = p.cycle then 0 else 1) ∧
      s.nextBaudPulse = decide (1 = p.cycle / 2) ∧ s.nextState = s.rNextState ∧
      s.baudCnt = 0 := by
  have hcnt : s.baudCnt.toNat = 0 := by rw [hs, if_pos rfl]
  have hcnt0 : s.baudCnt = 0 := BitVec.eq_of_toNat_eq hcnt
  refine ⟨?_, ?_, ?_, hcnt0⟩
  · rw [nextBaudCnt, if_neg (by simp [hv]), if_neg (by omega), hcnt0, if_neg (by omega)]
    rfl
  · rw [nextBaudPulse, hcnt, Nat.zero_add]
  · rw [nextState, if_neg (by simp [hv]), if_pos hcnt0]

theorem Receiving.clock (h : Receiving b j r s) (hr : 1 ≤ r) (hrC : r < p.cycle)
    (hC : p.cycle ≤ 65536) :
    s.nextBaudCnt.toNat = (if r + 1 = p.cycle then 0 else r + 1) ∧
      s.nextBaudPulse = decide (r + 1 = p.cycle / 2) ∧ s.nextState = cellState p j ∧
      s.baudCnt ≠ 0 := by
  have hclock := clock_inside h.valid h.cnt hr hrC hC
  rwa [h.state] at hclock

theorem Receiving.next_start (h : Receiving b 0 r s) (hr : 1 ≤ r) (hrC : r < p.cycle)
    (hC : p.cycle ≤ 65536) (hs : r = p.cycle / 2 → s.syncUartRx = false) :
    Receiving b 0 (r + 1) (s.step i) := by
  obtain ⟨hcnt, hpulse, hstate, -⟩ := h.clock hr hrC hC
  have hlow : (s.baudPulse && s.syncUartRx) = false := by
    rw [h.pulse]
    by_cases hmid : r = p.cycle / 2
    · rw [hs hmid, Bool.and_false]
    · rw [decide_eq_false hmid, Bool.false_and]
  obtain ⟨h1, h2, h3, h4⟩ := step_start (i := i) h.state hlow
  refine ⟨h1.trans h.valid, hcnt, hpulse, hstate, ?_, ?_, ?_⟩
  · rw [h2, h.rcvCnt, taken_start, taken_start]
  · rw [h3, h.dataRcv, taken_start, taken_start]
  · rw [h4, h.done, if_neg (by omega), if_neg (by omega)]

/-- The bit is shifted in at the sampling pulse, which comes in clock `cycle / 2`. -/
theorem Receiving.next_data (h : Receiving b j r s) (hj0 : 0 < j) (hj : j ≤ p.dataWidth)
    (hw : p.dataWidth < 16) (hr : 1 ≤ r) (hrC : r < p.cycle) (hC : p.cycle ≤ 65536)
    (hs : r = p.cycle / 2 → s.syncUartRx = b.getLsbD (j - 1)) :
    Receiving b j (r + 1) (s.step i) := by
  obtain ⟨hcnt, hpulse, hstate, -⟩ := h.clock hr hrC hC
  have hst : s.rCurrentState = .stateData := by
    rw [h.state, cellState, if_neg (by omega), if_pos hj]
  obtain ⟨h1, h2, h3, h4⟩ := step_data (i := i) hst
  have hdone : (s.step i).done? = none := by rw [h4, h.done, if_neg (by omega)]
  by_cases hmid : r = p.cycle / 2
  · have hp : s.baudPulse = true := by rw [h.pulse, decide_eq_true hmid]
    obtain ⟨ht, ht'⟩ := taken_pulse (p := p) hj0 hj
    have hcount := h.rcvCnt
    have hold := h.dataRcv
    subst hmid
    rw [ht] at hcount hold
    refine ⟨h1.trans h.valid, hcnt, hpulse, hstate, ?_, ?_, ?_⟩
    · have h1 : (1 : BitVec 4).toNat = 1 := rfl
      rw [h2, if_pos hp, ht', BitVec.toNat_add, hcount]
      omega
    · rw [h3, if_pos hp, shiftedData_eq (by omega) (hs rfl) hold, ht', Nat.sub_add_cancel hj0]
    · rw [hdone, if_neg (by omega)]
  · have hp : s.baudPulse = false := by rw [h.pulse, decide_eq_false hmid]
    refine ⟨h1.trans h.valid, hcnt, hpulse, hstate, ?_, ?_, ?_⟩
    · rw [h2, hp, if_neg Bool.false_ne_true, h.rcvCnt, taken_succ hmid]
    · rw [h3, hp, if_neg Bool.false_ne_true, h.dataRcv, taken_succ hmid]
    · rw [hdone, if_neg (by omega)]

theorem Receiving.next_end (h : Receiving b (p.dataWidth + 1) r s) (hon : p.parityOn = 0)
    (hr : 1 ≤ r) (hrC : r < p.cycle) (hC : p.cycle ≤ 65536) :
    Receiving b (p.dataWidth + 1) (r + 1) (s.step i) := by
  obtain ⟨hcnt, hpulse, hstate, hne⟩ := h.clock hr hrC hC
  have hst : s.rCurrentState = .stateEnd := by
    rw [h.state, cellState, if_neg (by omega), if_neg (by omega)]
  obtain ⟨h1, h2, h3, h4⟩ := step_end (i := i) hst hon
  refine ⟨?_, hcnt, hpulse, hstate, ?_, ?_, ?_⟩
  · rw [h1, decide_eq_false hne, h.valid]; rfl
  · rw [h2, h.rcvCnt, taken_end, taken_end]
  · rw [h3, h.dataRcv, taken_end, taken_end]
  · rw [h4, h.pulse, h.dataRcv, taken_end]
    by_cases hmid : r = p.cycle / 2 <;> simp [hmid]

/-- One clock inside a bit cell. -/
theorem Receiving.next (h : Receiving b j r s) (hon : j = p.dataWidth + 1 → p.parityOn = 0)
    (hw : p.dataWidth < 16) (hj : j ≤ p.dataWidth + 1) (hr : 1 ≤ r) (hrC : r < p.cycle) (hC : p.cycle ≤ 65536)
    (hs : r = p.cycle / 2 → j ≤ p.dataWidth → s.syncUartRx = cellBit b j) :
    Receiving b j (r + 1) (s.step i) := by
  rcases Nat.eq_zero_or_pos j with rfl | hj0
  · exact h.next_start hr hrC hC fun hmid => hs hmid (Nat.zero_le _)
  · rcases Nat.lt_or_ge p.dataWidth j with hend | hdata
    · obtain rfl : j = p.dataWidth + 1 := by omega
      exact h.next_end (hon rfl) hr hrC hC
    · refine h.next_data hj0 hdata hw hr hrC hC fun hmid => ?_
      rw [hs hmid hdata, cellBit, decide_eq_true (Nat.ne_of_gt hj0), Bool.true_and]

/-- The last clock of a bit cell, in which the state register moves on. -/
theorem Receiving.lastClock (h : Receiving b j p.cycle s) (hj : j ≤ p.dataWidth)
    (hC : 2 ≤ p.cycle) :
    (s.step i).baudValid = true ∧ (s.step i).baudCnt.toNat = (if 1 = p.cycle then 0 else 1) ∧
      (s.step i).baudPulse = decide (1 = p.cycle / 2) ∧
      (s.step i).rCurrentState = s.rNextState ∧ s.rRcvCnt.toNat = j ∧
      (s.step i).rRcvCnt = s.rRcvCnt ∧ (s.step i).rDataRcv = b <<< (p.dataWidth - j) ∧
      (s.step i).done? = none := by
  obtain ⟨hcnt, hpulse, hstate, -⟩ := clock_last h.valid h.cnt hC
  have hp : s.baudPulse = false := by rw [h.pulse, decide_eq_false (by omega)]
  have htaken : taken p j p.cycle = j := by rw [taken, if_pos (by omega)]; omega
  have hkeep : (s.step i).baudValid = s.baudValid ∧ (s.step i).rRcvCnt = s.rRcvCnt ∧
      (s.step i).rDataRcv = s.rDataRcv ∧ (s.step i).done? = s.done? := by
    rcases Nat.eq_zero_or_pos j with rfl | hj0
    · exact step_start h.state (by rw [hp, Bool.false_and])
    · have hst : s.rCurrentState = .stateData := by
        rw [h.state, cellState, if_neg (by omega), if_pos hj]
      simpa only [hp, Bool.false_eq_true, if_false] using step_data (i := i) hst
  obtain ⟨h1, h2, h3, h4⟩ := hkeep
  refine ⟨h1.trans h.valid, hcnt, hpulse, hstate, ?_, h2, ?_, ?_⟩
  · rw [h.rcvCnt, htaken]
  · rw [h3, h.dataRcv, htaken]
  · rw [h4, h.done, if_neg (by omega)]

theorem Receiving.nextCell (h : Receiving b j p.cycle s) (hon : j = p.dataWidth → p.parityOn = 0)
    (hw0 : 0 < p.dataWidth) (hj : j ≤ p.dataWidth) (hC : 2 ≤ p.cycle) :
    Receiving b (j + 1) 1 (s.step i) := by
  obtain ⟨hvalid, hcnt, hpulse, hstate, hcount, h2, h3, h4⟩ := h.lastClock (i := i) hj hC
  have htaken : taken p (j + 1) 1 = j := by rw [taken, if_neg (by omega)]; omega
  refine ⟨hvalid, hcnt, hpulse, ?_, ?_, ?_, ?_⟩
  · have hcell : cellState p (j + 1) = if j + 1 ≤ p.dataWidth then .stateData else .stateEnd := by
      rw [cellState, if_neg (by omega)]
    rw [hstate, hcell, rNextState, h.state, hcount]
    rcases Nat.eq_zero_or_pos j with rfl | hj0
    · exact (if_pos hw0).symm
    · rw [cellState, if_neg (by omega), if_pos hj]
      by_cases hlast : j = p.dataWidth
      · simp [hlast, hon hlast]
      · have : j + 1 ≤ p.dataWidth := by omega
        simp [hlast, this]
  · rw [h2, hcount, htaken]
  · rw [h3, htaken]
  · rw [h4, if_neg (by omega)]

end Cells

/-! ### Between frames -/

/-- The receiver waits for a start bit and takes none to have begun. -/
structure Armed (s : UartRx p) : Prop where
  state : s.rCurrentState = .stateIdle
  valid : s.baudValid = false
  cnt : s.baudCnt = 0
  pulse : s.baudPulse = false
  done : s.done? = none

/-- The receiver has just taken a start bit to have begun, its counter stands at 0. -/
structure Detected (s : UartRx p) : Prop where
  state : s.rCurrentState = .stateIdle
  valid : s.baudValid = true
  cnt : s.baudCnt = 0
  done : s.done? = none

/-- The receiver in the clock after a frame, in which its counter is not cleared yet. -/
structure Finished (s : UartRx p) : Prop where
  state : s.rCurrentState = .stateIdle
  valid : s.baudValid = false
  cnt : s.baudCnt = 1
  done : s.done? = none

/-- The receiver after a start bit that was not low in its middle. -/
structure Aborted (s : UartRx p) : Prop where
  state : s.rCurrentState = .stateStart
  valid : s.baudValid = false
  cnt : s.baudCnt.toNat = p.cycle / 2 + 1
  pulse : s.baudPulse = false
  done : s.done? = none

section Idle

variable {b : BitVec p.dataWidth}

/-- An idle receiver whose counter does not run goes on waiting, unless the detector fires. -/
theorem armed_step (hstate : s.rCurrentState = .stateIdle) (hvalid : s.baudValid = false)
    (hpulse : s.nextBaudPulse = false) (hf : s.rFlagRcvStart ≠ 0) : Armed (s.step i) := by
  obtain ⟨h1, -, -, h4, -⟩ := step_idle (i := i) hstate
  refine ⟨?_, ?_, ?_, hpulse, h4⟩
  · rw [step_rCurrentState, nextState, hvalid]; rfl
  · rw [h1, decide_eq_false hf, hvalid]; rfl
  · rw [step_baudCnt, nextBaudCnt, hvalid]; rfl

theorem detected_step (hstate : s.rCurrentState = .stateIdle) (hvalid : s.baudValid = false)
    (hf : s.rFlagRcvStart = 0) : Detected (s.step i) := by
  obtain ⟨h1, -, -, h4, -⟩ := step_idle (i := i) hstate
  refine ⟨?_, ?_, ?_, h4⟩
  · rw [step_rCurrentState, nextState, hvalid]; rfl
  · rw [h1, decide_eq_true hf, Bool.true_or]
  · rw [step_baudCnt, nextBaudCnt, hvalid]; rfl

theorem Armed.wait (h : Armed s) (hf : s.rFlagRcvStart ≠ 0) (hC : 4 ≤ p.cycle) :
    Armed (s.step i) := by
  refine armed_step h.state h.valid ?_ hf
  have h0 : (0 : BitVec 16).toNat = 0 := rfl
  rw [nextBaudPulse, h.cnt, h0, decide_eq_false (by omega)]

theorem Armed.detect (h : Armed s) (hf : s.rFlagRcvStart = 0) : Detected (s.step i) :=
  detected_step h.state h.valid hf

theorem Detected.next (h : Detected s) (hC : 2 ≤ p.cycle) : Receiving b 0 1 (s.step i) := by
  obtain ⟨h1, h2, h3, h4, -⟩ := step_idle (i := i) h.state
  have h0 : (0 : BitVec 16).toNat = 0 := rfl
  have hcnt : s.baudCnt.toNat = 0 := by rw [h.cnt, h0]
  refine ⟨?_, ?_, ?_, ?_, ?_, ?_, ?_⟩
  · rw [h1, h.valid, Bool.or_true]
  · rw [step_baudCnt, nextBaudCnt, if_neg (by simp [h.valid]), if_neg (by omega), h.cnt,
      if_neg (by omega)]
    rfl
  · rw [step_baudPulse, nextBaudPulse, hcnt, Nat.zero_add]
  · rw [step_rCurrentState, nextState, if_neg (by simp [h.valid]), if_pos h.cnt, rNextState,
      h.state]
    rfl
  · rw [h2, taken_start]; rfl
  · rw [h3, taken_start, Nat.sub_zero]
    simp
  · rw [h4, if_neg (by omega)]

theorem Receiving.finish (h : Receiving b (p.dataWidth + 1) p.cycle s) (hon : p.parityOn = 0)
    (hC : 2 ≤ p.cycle) : Finished (s.step i) := by
  obtain ⟨hcnt, -, hstate, hcnt0⟩ := clock_last h.valid h.cnt hC
  have hst : s.rCurrentState = .stateEnd := by
    rw [h.state, cellState, if_neg (by omega), if_neg (by omega)]
  have hp : s.baudPulse = false := by rw [h.pulse, decide_eq_false (by omega)]
  obtain ⟨h1, -, -, h4⟩ := step_end (i := i) hst hon
  refine ⟨?_, ?_, ?_, ?_⟩
  · rw [step_rCurrentState, hstate, rNextState, hst]
  · rw [h1, decide_eq_true hcnt0]; rfl
  · rw [if_neg (by omega)] at hcnt
    exact BitVec.eq_of_toNat_eq hcnt
  · rw [h4, hp]; rfl

theorem Finished.rearm (h : Finished s) (hf : s.rFlagRcvStart ≠ 0) (hC : 6 ≤ p.cycle) :
    Armed (s.step i) := by
  refine armed_step h.state h.valid ?_ hf
  have h1 : (1 : BitVec 16).toNat = 1 := rfl
  rw [nextBaudPulse, h.cnt, h1, decide_eq_false (by omega)]

theorem Finished.detect (h : Finished s) (hf : s.rFlagRcvStart = 0) : Detected (s.step i) :=
  detected_step h.state h.valid hf

/-- A high level in the middle of the start bit gives the frame up. -/
theorem Receiving.abort (h : Receiving b 0 (p.cycle / 2) s) (hs : s.syncUartRx = true)
    (hC : 4 ≤ p.cycle) (hC' : p.cycle ≤ 65536) : Aborted (s.step i) := by
  obtain ⟨hcnt, hpulse, hstate, -⟩ := h.clock (by omega) (by omega) hC'
  have hp : s.baudPulse = true := by rw [h.pulse, decide_eq_true rfl]
  have hst : s.rCurrentState = .stateStart := h.state
  refine ⟨hstate, ?_, ?_, ?_, ?_⟩
  · simp [step, output, hst, hp, hs]
  · rw [step_baudCnt, hcnt, if_neg (by omega)]
  · rw [step_baudPulse, hpulse, decide_eq_false (by omega)]
  · have hdone : (s.step i).done? = s.done? := by simp [step, output, hst, hp, hs, done?]
    rw [hdone, h.done, if_neg (by omega)]

theorem Aborted.next (h : Aborted s) : Armed (s.step i) := by
  have hlow : (s.baudPulse && s.syncUartRx) = false := by rw [h.pulse, Bool.false_and]
  obtain ⟨h1, -, -, h4⟩ := step_start (i := i) h.state hlow
  refine ⟨?_, h1.trans h.valid, ?_, ?_, h4.trans h.done⟩
  · rw [step_rCurrentState, nextState, h.valid]; rfl
  · rw [step_baudCnt, nextBaudCnt, h.valid]; rfl
  · rw [step_baudPulse, nextBaudPulse, h.cnt, decide_eq_false (by omega)]

end Idle

end Vcil.Rtl.UartRx
