import Vcil.Rtl.UartRxLine
import Vcil.Rtl.UartTxFrames

/-!
# The receiver with a parity bit

With `PARITY_ON` the data bits are followed by a cell in `STATE_PARITY`, and the word is shown only
if the check of that cell succeeds.

* `summed_after`: during the data bits `r_parity_check` is the sum of the bits taken;
* `Checking`: the receiver in `STATE_PARITY` and, after a failed check, in `STATE_END`;
* `rejected_after`: a word whose check fails is not shown.
-/

namespace Vcil.Rtl.UartRx

open Clocked

variable {p : UartParams} {s : UartRx p} {i : Bool}

/-! ### One clock -/

theorem step_idle_parity (hst : s.rCurrentState = .stateIdle) :
    (s.step i).rParityCheck = 0 ∧ (s.step i).oLdParity = s.oLdParity := by
  simp [step, output, hst]

theorem step_start_parity (hst : s.rCurrentState = .stateStart) :
    (s.step i).rParityCheck = s.rParityCheck ∧ (s.step i).oLdParity = s.oLdParity := by
  simp [step, output, hst]

theorem step_data_parity (hst : s.rCurrentState = .stateData) :
    (s.step i).rParityCheck = (if s.baudPulse then s.rParityCheck + BitVec.ofBool s.syncUartRx
        else s.rParityCheck) ∧
      (s.step i).oLdParity = s.oLdParity := by
  cases hp : s.baudPulse <;> simp [step, output, hst, hp]

theorem step_parity (hst : s.rCurrentState = .stateParity) :
    (s.step i).baudValid = s.baudValid ∧ (s.step i).rDataRcv = s.rDataRcv ∧
      (s.step i).rParityCheck = s.rParityCheck ∧
      (s.step i).oLdParity = (if s.baudPulse then
        decide (s.rParityCheck.toNat + s.syncUartRx.toNat = p.parityType) else s.oLdParity) ∧
      (s.step i).done? = s.done? := by
  cases hp : s.baudPulse <;> simp [step, output, hst, hp, done?]

theorem step_end_rejected (hst : s.rCurrentState = .stateEnd) (hon : p.parityOn ≠ 0)
    (hld : s.oLdParity = false) (hdone : s.done? = none) :
    (s.step i).baudValid = (!decide (s.baudCnt = 0) && s.baudValid) ∧
      (s.step i).oLdParity = false ∧ (s.step i).done? = none := by
  have hlow : s.oRxDone = false := by
    cases h : s.oRxDone with
    | false => rfl
    | true => simp [done?, h] at hdone
  cases hp : s.baudPulse <;> by_cases hc : s.baudCnt = 0 <;>
    simp [step, output, hst, hp, hon, hc, hld, done?, hlow]

/-! ### The cells after the data bits -/

/-- The receiver in clock `r` of the cell after the data bits, or of the next with the check
failed; `r_parity_check` is the sum of the bits of `b`. -/
structure Checking (b : BitVec p.dataWidth) (st : RxState) (r : ℕ) (s : UartRx p) : Prop where
  valid : s.baudValid = true
  cnt : s.baudCnt.toNat = if r = p.cycle then 0 else r
  pulse : s.baudPulse = decide (r = p.cycle / 2)
  state : s.rCurrentState = st
  sum : s.rParityCheck = UartTx.paritySum b p.dataWidth
  ld : s.oLdParity = false
  done : s.done? = none

section Cells

variable {b : BitVec p.dataWidth} {T : ℕ} {line : ℕ → Bool} (hD : Detected (s.after line T))
  (hld : (s.after line T).oLdParity = false) (hw0 : 0 < p.dataWidth) (hw : p.dataWidth < 16)
  (hC : 6 ≤ p.cycle) (hC' : p.cycle ≤ 65536)
  (hread : Reads p line (T + p.cycle / 2 - 1) b)
include hD hld hw0 hw hC hC' hread

/-- During the data bits the sum is that of the bits taken. -/
theorem summed_after {j : ℕ} (hj : j ≤ p.dataWidth) {r : ℕ} (hr : 1 ≤ r) (hrC : r ≤ p.cycle) :
    (s.after line (T + j * p.cycle + r)).rParityCheck = UartTx.paritySum b (taken p j r) ∧
      (s.after line (T + j * p.cycle + r)).oLdParity = false := by
  have hrec : ∀ j ≤ p.dataWidth, ∀ r, 1 ≤ r → r ≤ p.cycle →
      Receiving b j r (s.after line (T + j * p.cycle + r)) := fun j hj r hr hrC =>
    receiving_after hD hw0 hw hC hC' hread (by omega) (fun h => by omega) hr hrC
  refine cell_induction (n := j) (P := fun j r =>
    (s.after line (T + j * p.cycle + r)).rParityCheck = UartTx.paritySum b (taken p j r) ∧
      (s.after line (T + j * p.cycle + r)).oLdParity = false)
    (by omega) ?_ ?_ ?_ (Nat.le_refl j) hr hrC
  · obtain ⟨h1, h2⟩ := step_idle_parity (i := line T) hD.state
    rw [Nat.zero_mul, Nat.add_zero, taken_start]
    exact ⟨h1, h2.trans hld⟩
  · rintro k hk r hr hrC ⟨hsum, hlow⟩
    have hk := hrec k (by omega) r hr (by omega)
    rcases Nat.eq_zero_or_pos k with rfl | hk0
    · obtain ⟨h1, h2⟩ := step_start_parity (i := line (T + 0 * p.cycle + r)) hk.state
      rw [taken_start] at hsum ⊢
      exact ⟨h1.trans hsum, h2.trans hlow⟩
    · have hst : (s.after line (T + k * p.cycle + r)).rCurrentState = .stateData := by
        rw [hk.state, cellState, if_neg (by omega), if_pos (by omega)]
      obtain ⟨h1, h2⟩ := step_data_parity (i := line (T + k * p.cycle + r)) hst
      refine ⟨h1.trans ?_, h2.trans hlow⟩
      rw [hk.pulse]
      by_cases hmid : r = p.cycle / 2
      · obtain ⟨ht, ht'⟩ := taken_pulse (p := p) hk0 (show k ≤ p.dataWidth by omega)
        obtain ⟨m, rfl⟩ : ∃ m, k = m + 1 := ⟨k - 1, by omega⟩
        have hsync : (s.after line (T + (m + 1) * p.cycle + r)).syncUartRx = b.getLsbD m := by
          rw [show T + (m + 1) * p.cycle + r = T + p.cycle / 2 - 1 + (m + 1) * p.cycle + 1 by
            omega, sync_after, hread.bit m (by omega)]
        rw [decide_eq_true hmid, if_pos rfl, hsum, hsync, hmid, ht, ht']
        rfl
      · rw [decide_eq_false hmid, if_neg Bool.false_ne_true, hsum, taken_succ hmid]
  · rintro k hk ⟨hsum, hlow⟩
    have hlast := hrec k (by omega) p.cycle (by omega) (Nat.le_refl _)
    have htaken : taken p (k + 1) 1 = taken p k p.cycle := by
      rw [taken, if_neg (by omega), taken, if_pos (by omega)]
      omega
    rw [Nat.succ_mul, ← Nat.add_assoc, htaken]
    rcases Nat.eq_zero_or_pos k with rfl | hk0
    · obtain ⟨h1, h2⟩ := step_start_parity (i := line (T + 0 * p.cycle + p.cycle)) hlast.state
      exact ⟨h1.trans hsum, h2.trans hlow⟩
    · have hst : (s.after line (T + k * p.cycle + p.cycle)).rCurrentState = .stateData := by
        rw [hlast.state, cellState, if_neg (by omega), if_pos (by omega)]
      obtain ⟨h1, h2⟩ := step_data_parity (i := line (T + k * p.cycle + p.cycle)) hst
      rw [hlast.pulse, decide_eq_false (by omega), if_neg Bool.false_ne_true] at h1
      exact ⟨h1.trans hsum, h2.trans hlow⟩

end Cells

section Check

variable {b : BitVec p.dataWidth} {r : ℕ}

/-- After the last data bit comes the parity bit. -/
theorem Receiving.toChecking (h : Receiving b p.dataWidth p.cycle s) (hon : p.parityOn ≠ 0)
    (hw0 : 0 < p.dataWidth) (hC : 2 ≤ p.cycle)
    (hsum : s.rParityCheck = UartTx.paritySum b (taken p p.dataWidth p.cycle))
    (hld : s.oLdParity = false) : Checking b .stateParity 1 (s.step i) := by
  obtain ⟨hvalid, hcnt, hpulse, hstate, hcount, -, -, hdone⟩ :=
    h.lastClock (i := i) (Nat.le_refl _) hC
  have hst : s.rCurrentState = .stateData := by
    rw [h.state, cellState, if_neg (by omega), if_pos (Nat.le_refl _)]
  have htaken : taken p p.dataWidth p.cycle = p.dataWidth := by
    rw [taken, if_pos (by omega), Nat.min_self]
  obtain ⟨h1, h2⟩ := step_data_parity (i := i) hst
  rw [h.pulse, decide_eq_false (by omega), if_neg Bool.false_ne_true, hsum, htaken] at h1
  refine ⟨hvalid, hcnt, hpulse, ?_, h1, h2.trans hld, hdone⟩
  rw [hstate, rNextState, hst]
  simp only [hcount, if_true, hon, if_false]

/-- A clock of the parity bit; in its middle the check fails. -/
theorem Checking.next_parity (h : Checking b .stateParity r s) (hr : 1 ≤ r) (hrC : r < p.cycle)
    (hC : p.cycle ≤ 65536) (hs : r = p.cycle / 2 →
      (UartTx.paritySum b p.dataWidth).toNat + s.syncUartRx.toNat ≠ p.parityType) :
    Checking b .stateParity (r + 1) (s.step i) := by
  obtain ⟨hcnt, hpulse, hstate, -⟩ := clock_inside h.valid h.cnt hr hrC hC
  obtain ⟨h1, -, h3, h4, h5⟩ := step_parity (i := i) h.state
  refine ⟨h1.trans h.valid, hcnt, hpulse, hstate.trans h.state, h3.trans h.sum, ?_,
    h5.trans h.done⟩
  rw [h4, h.pulse]
  by_cases hmid : r = p.cycle / 2
  · rw [decide_eq_true hmid, if_pos rfl, h.sum, decide_eq_false (hs hmid)]
  · rw [decide_eq_false hmid, if_neg Bool.false_ne_true, h.ld]

theorem Checking.last_parity (h : Checking b .stateParity p.cycle s) (hC : 2 ≤ p.cycle) :
    Checking b .stateEnd 1 (s.step i) := by
  obtain ⟨hcnt, hpulse, hstate, -⟩ := clock_last h.valid h.cnt hC
  obtain ⟨h1, -, h3, h4, h5⟩ := step_parity (i := i) h.state
  refine ⟨h1.trans h.valid, hcnt, hpulse, ?_, h3.trans h.sum, ?_, h5.trans h.done⟩
  · rw [step_rCurrentState, hstate, rNextState, h.state]
  · rw [h4, h.pulse, decide_eq_false (by omega), if_neg Bool.false_ne_true, h.ld]

theorem step_end_sum (hst : s.rCurrentState = .stateEnd) :
    (s.step i).rParityCheck = s.rParityCheck := by
  cases hp : s.baudPulse <;> simp only [step, output, hst, hp] <;> split_ifs <;> rfl

theorem Checking.next_end (h : Checking b .stateEnd r s) (hon : p.parityOn ≠ 0) (hr : 1 ≤ r)
    (hrC : r < p.cycle) (hC : p.cycle ≤ 65536) : Checking b .stateEnd (r + 1) (s.step i) := by
  obtain ⟨hcnt, hpulse, hstate, hne⟩ := clock_inside h.valid h.cnt hr hrC hC
  obtain ⟨h1, h2, h3⟩ := step_end_rejected (i := i) h.state hon h.ld h.done
  refine ⟨?_, hcnt, hpulse, hstate.trans h.state, (step_end_sum h.state).trans h.sum, h2, h3⟩
  rw [h1, decide_eq_false hne, h.valid]
  rfl

theorem Checking.finish (h : Checking b .stateEnd p.cycle s) (hon : p.parityOn ≠ 0)
    (hC : 2 ≤ p.cycle) : Finished (s.step i) := by
  obtain ⟨hcnt, -, hstate, hcnt0⟩ := clock_last h.valid h.cnt hC
  obtain ⟨h1, -, h3⟩ := step_end_rejected (i := i) h.state hon h.ld h.done
  refine ⟨?_, ?_, ?_, h3⟩
  · rw [step_rCurrentState, hstate, rNextState, h.state]
  · rw [h1, decide_eq_true hcnt0]
    rfl
  · rw [if_neg (by omega)] at hcnt
    exact BitVec.eq_of_toNat_eq hcnt

end Check

/-! ### A rejected word -/

section Rejected

variable {b : BitVec p.dataWidth} {T : ℕ} {line : ℕ → Bool} (hD : Detected (s.after line T))
  (hld : (s.after line T).oLdParity = false) (hon : p.parityOn ≠ 0) (hw0 : 0 < p.dataWidth)
  (hw : p.dataWidth < 16) (hC : 6 ≤ p.cycle) (hC' : p.cycle ≤ 65536)
  (hread : Reads p line (T + p.cycle / 2 - 1) b)
  (hbad : (UartTx.paritySum b p.dataWidth).toNat +
    (line (T + p.cycle / 2 - 1 + (p.dataWidth + 1) * p.cycle)).toNat ≠ p.parityType)
include hD hld hon hw0 hw hC hC' hread hbad

theorem checking_after {r : ℕ} (hr : 1 ≤ r) (hrC : r ≤ p.cycle) :
    Checking b .stateParity r (s.after line (T + (p.dataWidth + 1) * p.cycle + r)) ∧
      Checking b .stateEnd r (s.after line (T + (p.dataWidth + 2) * p.cycle + r)) := by
  have hcells : (p.dataWidth + 2) * p.cycle = (p.dataWidth + 1) * p.cycle + p.cycle := by ring
  have hcells' : (p.dataWidth + 1) * p.cycle = p.dataWidth * p.cycle + p.cycle := by ring
  have hparity : ∀ r, 1 ≤ r → r ≤ p.cycle →
      Checking b .stateParity r (s.after line (T + (p.dataWidth + 1) * p.cycle + r)) := by
    intro r hr
    induction r, hr using Nat.le_induction with
    | base =>
      intro _
      obtain ⟨hsum, hlow⟩ := summed_after hD hld hw0 hw hC hC' hread (Nat.le_refl _)
        (show 1 ≤ p.cycle by omega) (Nat.le_refl _)
      have hlast := receiving_after hD hw0 hw hC hC' hread (Nat.le_succ p.dataWidth)
        (fun h => by omega) (show 1 ≤ p.cycle by omega) (Nat.le_refl _)
      rw [hcells', ← Nat.add_assoc]
      exact hlast.toChecking hon hw0 (by omega) hsum hlow
    | succ r hr ih =>
      intro hrC
      refine (ih (by omega)).next_parity hr (by omega) hC' fun hmid => ?_
      rw [show T + (p.dataWidth + 1) * p.cycle + r =
        T + p.cycle / 2 - 1 + (p.dataWidth + 1) * p.cycle + 1 by omega, sync_after]
      exact hbad
  refine ⟨hparity r hr hrC, ?_⟩
  induction r, hr using Nat.le_induction with
  | base =>
    rw [hcells, ← Nat.add_assoc]
    exact (hparity p.cycle (by omega) (Nat.le_refl _)).last_parity (by omega)
  | succ r hr ih => exact (ih (by omega)).next_end hon hr (by omega) hC'

/-- A word whose check fails is not shown, and the receiver looks for the next. -/
theorem rejected_after :
    Finished (s.after line (T + (p.dataWidth + 3) * p.cycle + 1)) ∧
      ∀ x ≤ (p.dataWidth + 3) * p.cycle + 1, s.shown line (T + x) = s.shown line T := by
  have hcells : (p.dataWidth + 3) * p.cycle = (p.dataWidth + 2) * p.cycle + p.cycle := by ring
  have hfinish : Finished (s.after line (T + (p.dataWidth + 3) * p.cycle + 1)) := by
    have hlast := (checking_after hD hld hon hw0 hw hC hC' hread hbad
      (show 1 ≤ p.cycle by omega) (Nat.le_refl _)).2
    rw [hcells, ← Nat.add_assoc]
    exact hlast.finish hon (by omega)
  refine ⟨hfinish, fun x hx => shown_quiet (Nat.le_add_right T x) fun k hk hkx => ?_⟩
  obtain ⟨y, rfl⟩ := Nat.exists_eq_add_of_le hk
  rcases Nat.lt_or_ge y ((p.dataWidth + 3) * p.cycle) with hlt | hge
  · -- clock `r + 1` of cell `j`
    obtain ⟨j, r, hr, rfl⟩ : ∃ j r, r < p.cycle ∧ y = j * p.cycle + r :=
      ⟨y / p.cycle, y % p.cycle, Nat.mod_lt _ (by omega), (Nat.div_add_mod' y p.cycle).symm⟩
    have hj : j < p.dataWidth + 3 := by
      by_contra hj
      have := Nat.mul_le_mul_right p.cycle (Nat.not_lt.1 hj)
      omega
    have hcheck := checking_after hD hld hon hw0 hw hC hC' hread hbad (show 1 ≤ r + 1 by omega)
      (show r + 1 ≤ p.cycle by omega)
    rw [show T + (j * p.cycle + r) + 1 = T + j * p.cycle + (r + 1) by omega]
    rcases Nat.lt_or_ge p.dataWidth j with hlate | hdata
    · rcases Nat.eq_or_lt_of_le hlate with rfl | hlater
      · exact hcheck.1.done
      · obtain rfl : j = p.dataWidth + 2 := by omega
        exact hcheck.2.done
    · have hrec := receiving_after hD hw0 hw hC hC' hread (j := j) (by omega)
        (fun h => by omega) (show 1 ≤ r + 1 by omega) (show r + 1 ≤ p.cycle by omega)
      rw [hrec.done, if_neg (by omega)]
  · obtain rfl : y = (p.dataWidth + 3) * p.cycle := by omega
    exact hfinish.done

end Rejected

/-- With either parity type the bit that the transmitter sends fails the check: for odd parity it
is the sum itself, for even parity its complement. -/
theorem parityLevel_rejected (b : BitVec p.dataWidth) (hlt : p.cycle / 2 < UartTx.bitTime p)
    (htype : p.parityType ≤ 1) : (UartTx.paritySum b p.dataWidth).toNat +
      (UartTx.parityLevel (p := p) b).toNat ≠ p.parityType := by
  have hdata : UartTx.dataCells p = p.dataWidth := if_pos hlt
  have hbit : ∀ x : BitVec 1, x.toNat + (x.getLsbD 0).toNat ≠ 1 ∧
      x.toNat + ((x + 1).getLsbD 0).toNat ≠ 0 := by decide
  rw [UartTx.parityLevel, hdata]
  split_ifs with hodd
  · rw [hodd]
    exact (hbit _).1
  · rw [show p.parityType = 0 by omega]
    exact (hbit _).2

end Vcil.Rtl.UartRx
