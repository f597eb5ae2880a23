import Mathlib.Tactic.Ring
import Vcil.Rtl.UartTx

/-!
# Frames sent by `uart_tx`

A word is sent in bit cells of `bitTime` clocks: cell 0 is the start bit, then come the data bits,
the parity bit if there is one, and `STATE_END`.  The level of a cell is put on the line in the
middle of the cell, so the frame on the line is half a bit time late.

* `registers b j r`: all registers in clock `r` of bit cell `j` of the word `b`;
* `step_registers`: one clock of it;
* `Resting`, `accepted`, `Stopped`: the transmitter between frames.
-/

namespace Vcil.Rtl.UartTx

variable {p : UartParams}

/-- The clocks of a bit cell; a counter of 16 bits wraps by itself below a longer period. -/
def bitTime (p : UartParams) : ℕ := min p.cycle 65536

/-- The number of cells in `STATE_DATA`.  A pulse at the wrap of the counter is counted after the
state register has looked at the count, and one more bit goes out. -/
def dataCells (p : UartParams) : ℕ :=
  if p.cycle / 2 < bitTime p then p.dataWidth else p.dataWidth + 1

/-- The number of cells before `STATE_END`. -/
def cells (p : UartParams) : ℕ := if p.parityOn = 0 then dataCells p + 1 else dataCells p + 2

/-- The state during bit cell `j`. -/
def cellState (p : UartParams) (j : ℕ) : TxState :=
  if j = 0 then .stateStart
  else if j ≤ dataCells p then .stateData
  else if j < cells p then .stateParity
  else .stateEnd

/-- The sum of the first `n` bits of a word, in one bit. -/
def paritySum {w : ℕ} (b : BitVec w) : ℕ → BitVec 1
  | 0 => 0
  | n + 1 => paritySum b n + BitVec.ofBool (b.getLsbD n)

/-- The parity bit of a word. -/
def parityLevel (b : BitVec p.dataWidth) : Bool :=
  if p.parityType = 1 then (paritySum b (dataCells p)).getLsbD 0
  else (paritySum b (dataCells p) + 1).getLsbD 0

/-- The level of bit cell `j`. -/
def level (b : BitVec p.dataWidth) (j : ℕ) : Bool :=
  if j = 0 then false
  else if j ≤ dataCells p then b.getLsbD (j - 1)
  else if j < cells p then parityLevel b
  else true

/-- The number of cells whose level has been put on the line before clock `r` of cell `j`. -/
def driven (p : UartParams) (j r : ℕ) : ℕ := if p.cycle / 2 < r then j + 1 else j

/-- The number of data bits among the first `d` cells. -/
def sent (p : UartParams) (d : ℕ) : ℕ := min (dataCells p) (d - 1)

/-- The registers of the output process after the levels of `d` cells. -/
def withDriven (s : UartTx p) (b : BitVec p.dataWidth) (d : ℕ) : UartTx p :=
  { s with
    rTxCnt := BitVec.ofNat 4 (sent p d)
    rDataTx := b >>> sent p d
    rParityCheck := paritySum b (sent p d)
    oUartTx := if d = 0 then true else level b (d - 1) }

/-- All registers in clock `r` of bit cell `j`.  The clocks of a cell are counted from 1 to
`bitTime`, the baud counter shows 0 in the last of them. -/
def registers (b : BitVec p.dataWidth) (j r : ℕ) : UartTx p :=
  withDriven
    { (reset : UartTx p) with
      rCurrentState := cellState p j
      baudValid := true
      baudCnt := BitVec.ofNat 16 (r % bitTime p)
      baudPulse := r = p.cycle / 2
      oState0 := true } b (driven p j r)

/-- The registers after a word has been taken. -/
def accepted (b : BitVec p.dataWidth) : UartTx p :=
  { (reset : UartTx p) with baudValid := true, rDataTx := b, oState0 := true }

/-- The transmitter in `STATE_IDLE` with its clock at rest; it is free unless `busy`. -/
structure Resting (busy : Bool) (s : UartTx p) : Prop where
  state : s.rCurrentState = .stateIdle
  valid : s.baudValid = false
  cnt : s.baudCnt = 0
  pulse : s.baudPulse = false
  line : s.oUartTx = true
  state0 : s.oState0 = busy

/-- The transmitter in the clock after the stop level has been put on the line. -/
structure Stopped (s : UartTx p) : Prop where
  state : s.rCurrentState = .stateEnd
  valid : s.baudValid = false
  cnt : s.baudCnt.toNat + 1 ≠ p.cycle / 2
  pulse : s.baudPulse = false
  line : s.oUartTx = true
  state0 : s.oState0 = true

section Cells

variable {b : BitVec p.dataWidth} {j r : ℕ} {i : TxPins p.dataWidth}

theorem driven_succ (hr : r ≠ p.cycle / 2) : driven p j (r + 1) = driven p j r := by
  have : p.cycle / 2 < r + 1 ↔ p.cycle / 2 < r := by omega
  simp only [driven, this]

theorem driven_pulse : driven p j (p.cycle / 2) = j ∧ driven p j (p.cycle / 2 + 1) = j + 1 :=
  ⟨if_neg (Nat.lt_irrefl _), if_pos (Nat.lt_succ_self _)⟩

theorem cellState_ne_idle : cellState p j ≠ .stateIdle := by
  unfold cellState
  split_ifs <;> decide

theorem cellState_data (h0 : 0 < j) (h : j ≤ dataCells p) : cellState p j = .stateData := by
  rw [cellState, if_neg (Nat.ne_of_gt h0), if_pos h]

theorem cellState_parity (h : dataCells p < j) (hj : j < cells p) :
    cellState p j = .stateParity := by
  rw [cellState, if_neg (by omega), if_neg (by omega), if_pos hj]

theorem dataCells_lt_cells : dataCells p < cells p := by
  unfold cells
  split_ifs <;> omega

theorem cellState_end (h : cells p ≤ j) : cellState p j = .stateEnd := by
  have := dataCells_lt_cells (p := p)
  rw [cellState, if_neg (by omega), if_neg (by omega), if_neg (by omega)]

/-- Without a pulse, or outside `STATE_IDLE`, the output process does nothing. -/
theorem output_quiet {s : UartTx p} (hs : s.rCurrentState ≠ .stateIdle)
    (hp : s.baudPulse = false) : s.output i = s := by
  unfold output
  cases hst : s.rCurrentState with
  | stateIdle => exact absurd hst hs
  | stateStart | stateData | stateParity | stateEnd => simp only [hp, Bool.false_eq_true, if_false]

/-- A pulse puts the level of the cell on the line. -/
theorem output_pulse {s : UartTx p} (hs : s.rCurrentState = cellState p j) (hj : j < cells p)
    (hp : s.baudPulse = true) (hd : s = withDriven s b j) :
    s.output i = withDriven s b (j + 1) := by
  rcases Nat.eq_zero_or_pos j with rfl | hj0
  · -- the start bit
    have hst : s.rCurrentState = .stateStart := hs
    have h0 : sent p (0 + 1) = sent p 0 := rfl
    rw [hd]
    simp only [output, withDriven, hst, hp, h0, if_true]
    rfl
  · rcases Nat.lt_or_ge (dataCells p) j with hpar | hdata
    · -- the parity bit
      have hst : s.rCurrentState = .stateParity := hs.trans (cellState_parity hpar hj)
      have hsent : sent p (j + 1) = sent p j ∧ sent p j = dataCells p := by
        unfold sent
        omega
      have hlevel : level b j = parityLevel b := by
        rw [level, if_neg (by omega), if_neg (by omega), if_pos hj]
      rw [hd]
      simp only [output, withDriven, hst, hp, hsent.1, hsent.2, if_true, Nat.add_sub_cancel,
        if_neg (Nat.succ_ne_zero j), hlevel, parityLevel]
      split_ifs <;> rfl
    · -- a data bit
      have hst : s.rCurrentState = .stateData := hs.trans (cellState_data hj0 hdata)
      have hsent : sent p j = j - 1 ∧ sent p (j + 1) = j - 1 + 1 := by
        unfold sent
        omega
      have hlevel : level b j = b.getLsbD (j - 1) := by
        rw [level, if_neg (by omega), if_pos hdata]
      have hbit : (b >>> (j - 1)).getLsbD 0 = b.getLsbD (j - 1) := by
        rw [BitVec.getLsbD_ushiftRight, Nat.add_zero]
      rw [hd]
      simp only [output, withDriven, hst, hp, hsent.1, hsent.2, if_true, Nat.add_sub_cancel,
        if_neg (Nat.succ_ne_zero j), hlevel, hbit, paritySum, BitVec.shiftRight_add,
        BitVec.ofNat_add]
      rfl

variable (hw0 : 0 < p.dataWidth) (hw : p.dataWidth < 15) (hC : 8 ≤ p.cycle)
  (hH : p.cycle / 2 ≤ bitTime p)

theorem bitTime_le : bitTime p ≤ p.cycle ∧ bitTime p ≤ 65536 :=
  ⟨Nat.min_le_left _ _, Nat.min_le_right _ _⟩

include hC in
theorem bitTime_pos : 8 ≤ bitTime p := by
  unfold bitTime
  omega

include hC in
/-- The baud counter and its pulse inside a bit cell. -/
theorem nextBaud {s : UartTx p} (hv : s.baudValid = true)
    (hcnt : s.baudCnt = BitVec.ofNat 16 (r % bitTime p)) :
    s.nextBaudCnt = BitVec.ofNat 16 ((r % bitTime p + 1) % bitTime p) ∧
      s.nextBaudPulse = decide (r % bitTime p + 1 = p.cycle / 2) := by
  have hpos := bitTime_pos hC
  have hlt : r % bitTime p < bitTime p := Nat.mod_lt _ (by omega)
  obtain ⟨hle, hle'⟩ := bitTime_le (p := p)
  have htoNat : s.baudCnt.toNat = r % bitTime p := by
    rw [hcnt, BitVec.toNat_ofNat, Nat.mod_eq_of_lt (by omega)]
  constructor
  · simp only [nextBaudCnt, hv, htoNat, Bool.not_true, Bool.false_eq_true, if_false]
    rcases Nat.lt_or_ge (r % bitTime p + 1) (bitTime p) with hin | hwrap
    · rw [if_neg (by omega), Nat.mod_eq_of_lt hin, hcnt, BitVec.ofNat_add]
      rfl
    · have hlast : r % bitTime p + 1 = bitTime p := by omega
      rw [hlast, Nat.mod_self]
      split_ifs with hcyc
      · rfl
      · have h16 : bitTime p = 65536 := by
          unfold bitTime at hcyc ⊢
          omega
        rw [hcnt, show r % bitTime p = 65535 by omega]
        rfl
  · rw [nextBaudPulse, htoNat]

include hw0 hw hC

/-- The state register at the end of a bit cell. -/
theorem nextState_last (hj : j < cells p) :
    (registers b j (bitTime p)).rNextState = cellState p (j + 1) := by
  have hdc : 0 < dataCells p ∧ dataCells p < 16 := by
    unfold dataCells
    split_ifs <;> omega
  have hpos := bitTime_pos hC
  rcases Nat.eq_zero_or_pos j with rfl | hj0
  · exact (cellState_data (Nat.succ_pos 0) hdc.1).symm
  · rcases Nat.lt_or_ge (dataCells p) j with hpar | hdata
    · have hst : (registers b j (bitTime p)).rCurrentState = .stateParity :=
        cellState_parity hpar hj
      have hlast : cells p ≤ j + 1 := by
        unfold cells at hj ⊢
        split_ifs at hj ⊢ <;> omega
      rw [cellState_end hlast, rNextState, hst]
    · have hst : (registers b j (bitTime p)).rCurrentState = .stateData :=
        cellState_data hj0 hdata
      have hcount : (registers b j (bitTime p)).rTxCnt.toNat = p.dataWidth ↔ j = dataCells p := by
        show (BitVec.ofNat 4 (sent p (driven p j (bitTime p)))).toNat = _ ↔ _
        rw [BitVec.toNat_ofNat]
        unfold sent driven dataCells at *
        split_ifs at * <;> omega
      rw [rNextState, hst]
      by_cases hlast : j = dataCells p
      · simp only [hcount.2 hlast, if_true]
        by_cases hon : p.parityOn = 0
        · have hcells : cells p = j + 1 := by rw [cells, if_pos hon, hlast]
          rw [if_pos hon, cellState_end (Nat.le_of_eq hcells)]
        · have hcells : cells p = j + 2 := by rw [cells, if_neg hon, hlast]
          rw [if_neg hon, cellState_parity (by omega) (by omega)]
      · simp only [mt hcount.1 hlast, if_false]
        rw [cellState_data (by omega) (by omega)]

include hH in
/-- One clock of a bit cell; the state register moves in the last. -/
theorem step_registers (hj : j ≤ cells p) (hr : 1 ≤ r) (hrP : r ≤ bitTime p)
    (hend : j = cells p → r < p.cycle / 2) :
    (registers b j r).step i =
      if r = bitTime p then registers b (j + 1) 1 else registers b j (r + 1) := by
  have hpos := bitTime_pos hC
  obtain ⟨hcnt, hpulse⟩ := nextBaud (s := registers b j r) (r := r) hC rfl rfl
  -- the output process
  have hout : (registers b j r).output i =
      withDriven (registers b j r) b (driven p j (r + 1)) := by
    by_cases hmid : r = p.cycle / 2
    · have hj' : j < cells p := by
        rcases Nat.eq_or_lt_of_le hj with heq | hlt
        · have := hend heq
          omega
        · exact hlt
      rw [hmid, driven_pulse.2]
      refine output_pulse rfl hj' (decide_eq_true rfl) ?_
      rw [registers, driven_pulse.1]
      rfl
    · rw [driven_succ hmid]
      exact output_quiet cellState_ne_idle (decide_eq_false hmid)
  have hstep : (registers b j r).step i =
      { withDriven (registers b j r) b (driven p j (r + 1)) with
        baudCnt := BitVec.ofNat 16 ((r % bitTime p + 1) % bitTime p)
        baudPulse := decide (r % bitTime p + 1 = p.cycle / 2)
        rCurrentState := (registers b j r).nextState } := by
    rw [step, hout, hcnt, hpulse]
  rw [hstep]
  have hv : (registers b j r).baudValid = true := rfl
  split_ifs with hlast
  · have hj' : j < cells p := by
      rcases Nat.eq_or_lt_of_le hj with heq | hlt
      · have := hend heq
        omega
      · exact hlt
    have hcnt0 : (registers b j r).baudCnt = 0 := by
      show BitVec.ofNat 16 (r % bitTime p) = BitVec.ofNat 16 0
      rw [hlast, Nat.mod_self]
    have hstate : (registers b j r).nextState = cellState p (j + 1) := by
      rw [nextState, if_neg (by simp [hv]), if_pos hcnt0, hlast, nextState_last hw0 hw hC hj']
    have hdriven : driven p j (r + 1) = driven p (j + 1) 1 := by
      rw [driven, if_pos (by omega), driven, if_neg (by omega)]
    rw [hstate, hdriven, hlast, Nat.mod_self]
    rfl
  · have hmod : r % bitTime p = r := Nat.mod_eq_of_lt (by omega)
    have hne : (registers b j r).baudCnt ≠ 0 := by
      intro h0
      have h1 := congrArg BitVec.toNat h0
      rw [show (registers b j r).baudCnt = BitVec.ofNat 16 (r % bitTime p) from rfl, hmod,
        BitVec.toNat_ofNat] at h1
      have := (bitTime_le (p := p)).2
      simp at h1
      omega
    have hstate : (registers b j r).nextState = cellState p j := by
      rw [nextState, if_neg (by simp [hv]), if_neg hne]
      rfl
    rw [hstate, hmod]
    rfl

omit hw0 hw in
/-- The pulse of `STATE_END` puts the stop level on the line and stops the counter. -/
theorem step_stop (hlt : p.cycle / 2 < bitTime p) :
    Stopped ((registers b (cells p) (p.cycle / 2)).step i) := by
  obtain ⟨hcnt, hpulse⟩ := nextBaud (s := registers b (cells p) (p.cycle / 2))
    (r := p.cycle / 2) hC rfl rfl
  have hle := (bitTime_le (p := p)).2
  have hmod : p.cycle / 2 % bitTime p = p.cycle / 2 := Nat.mod_eq_of_lt hlt
  have hst : (registers b (cells p) (p.cycle / 2)).rCurrentState = .stateEnd :=
    cellState_end (Nat.le_refl _)
  have hp : (registers b (cells p) (p.cycle / 2)).baudPulse = true := decide_eq_true rfl
  have hout : (registers b (cells p) (p.cycle / 2)).output i =
      { registers b (cells p) (p.cycle / 2) with oUartTx := true, baudValid := false } := by
    simp only [output, hst, hp, if_true]
  refine ⟨?_, ?_, ?_, ?_, ?_, ?_⟩
  · have hne : (registers b (cells p) (p.cycle / 2)).baudCnt ≠ 0 := by
      intro h0
      have h1 := congrArg BitVec.toNat h0
      rw [show (registers b (cells p) (p.cycle / 2)).baudCnt =
        BitVec.ofNat 16 (p.cycle / 2 % bitTime p) from rfl, hmod, BitVec.toNat_ofNat] at h1
      simp at h1
      omega
    show (registers b (cells p) (p.cycle / 2)).nextState = _
    rw [nextState, if_neg (by simp [registers, withDriven]), if_neg hne, hst]
  · rw [step, hout]
  · show (registers b (cells p) (p.cycle / 2)).nextBaudCnt.toNat + 1 ≠ _
    rw [hcnt, hmod, BitVec.toNat_ofNat]
    rcases Nat.lt_or_ge (p.cycle / 2 + 1) (bitTime p) with hin | hwrap
    · rw [Nat.mod_eq_of_lt hin, Nat.mod_eq_of_lt (by omega)]
      omega
    · rw [show p.cycle / 2 + 1 = bitTime p by omega, Nat.mod_self]
      omega
  · show (registers b (cells p) (p.cycle / 2)).nextBaudPulse = _
    rw [hpulse, hmod]
    exact decide_eq_false (by omega)
  · rw [step, hout]
  · rw [step, hout]
    rfl

end Cells

/-! ### Between frames -/

section Between

variable {s : UartTx p} {i : TxPins p.dataWidth} {b : BitVec p.dataWidth} {busy : Bool}

theorem Stopped.next (h : Stopped s) : Resting true (s.step i) := by
  have hout : s.output i = s := output_quiet (by rw [h.state]; decide) h.pulse
  refine ⟨?_, ?_, ?_, ?_, ?_, ?_⟩
  · show s.nextState = _
    rw [nextState, h.valid]
    rfl
  · rw [step, hout, h.valid]
  · show s.nextBaudCnt = _
    rw [nextBaudCnt, h.valid]
    rfl
  · exact decide_eq_false h.cnt
  · rw [step, hout, h.line]
  · rw [step, hout, h.state0]

theorem step_free (hfree : s.oState0 = false) (hi : i.iDataValid = false) :
    (s.step i).oState0 = false := by
  have hout : (s.step i).oState0 = (s.output i).oState0 := rfl
  rw [hout, output]
  cases s.rCurrentState with
  | stateIdle => simp only [hi, Bool.false_eq_true, if_false]
  | stateStart | stateData | stateParity | stateEnd =>
    simp only
    split_ifs <;> exact hfree

/-- Without an offer the transmitter rests, free from the next clock on. -/
theorem Resting.wait (h : Resting busy s) (hi : i.iDataValid = false) (hC : 8 ≤ p.cycle) :
    Resting false (s.step i) := by
  have hout : s.output i =
      { s with oUartTx := true, rTxCnt := 0, rParityCheck := 0, oState0 := false } := by
    simp only [output, h.state, hi, Bool.false_eq_true, if_false]
  refine ⟨?_, ?_, ?_, ?_, ?_, ?_⟩
  · show s.nextState = _
    rw [nextState, h.valid]
    rfl
  · rw [step, hout, h.valid]
  · show s.nextBaudCnt = _
    rw [nextBaudCnt, h.valid]
    rfl
  · show s.nextBaudPulse = false
    rw [nextBaudPulse, h.cnt]
    exact decide_eq_false (by simp only [BitVec.ofNat_eq_ofNat, BitVec.toNat_ofNat]; omega)
  · rw [step, hout]
  · rw [step, hout]

theorem Resting.accept (h : Resting busy s) (hi : i.iDataValid = true) (hC : 8 ≤ p.cycle) :
    s.step i = accepted i.iDataTx := by
  have hstate : s.nextState = .stateIdle := by
    rw [nextState, h.valid]
    rfl
  have hcnt : s.nextBaudCnt = 0 := by
    rw [nextBaudCnt, h.valid]
    rfl
  have hpulse : s.nextBaudPulse = false := by
    rw [nextBaudPulse, h.cnt]
    exact decide_eq_false (by simp only [BitVec.ofNat_eq_ofNat, BitVec.toNat_ofNat]; omega)
  simp only [step, output, h.state, hi, if_true, hstate, hcnt, hpulse]
  rfl

/-- The transmitter takes the word again in the second clock, in which it begins the start bit. -/
theorem step_accepted (hi : i = ⟨b, true⟩) (hC : 8 ≤ p.cycle) :
    (accepted b).step i = registers b 0 1 := by
  have hpos := bitTime_pos hC
  obtain ⟨hcnt, hpulse⟩ := nextBaud (s := accepted b) (r := 0) hC rfl
    (by rw [Nat.zero_mod]; rfl)
  rw [Nat.zero_mod, Nat.zero_add] at hcnt hpulse
  have hdriven : driven p 0 1 = 0 := if_neg (by omega)
  have hsent : sent p 0 = 0 := Nat.min_zero _
  have hshift : b >>> 0 = b := BitVec.ushiftRight_zero b
  rw [registers, withDriven, hdriven, hsent, hshift, step, hcnt, hpulse, hi]
  rfl

end Between

end Vcil.Rtl.UartTx
