import Vcil.Rtl.NiceCoreRuns

/-!
# One clock of the coprocessor, state by state

What the control registers of `nice_core` do in one clock: the state, the handshake with the
transmitter and the counters, as functions of the same registers and of the pins.
-/

namespace Vcil.Rtl.Core

variable {s : Core} (i : Pins)

/-- The handshake in a state that neither polls nor sends: it is released when the transmitter
has taken the byte. -/
def released (s : Core) (i : Pins) : Bool := !i.iState0 && s.stateCount

theorem offers_of_not_polled (h : ¬Polled i s) : s.offers i = s.released i := by
  rw [offers, if_neg h, released]
  cases i.iState0 <;> rfl

theorem not_readOut (h3 : s.state ≠ .sm3Step3) (h4 : s.state ≠ .sm4Step3) : ¬ReadOut i s := by
  rintro ⟨-, -, h | h, -⟩
  · exact h3 h
  · exact h4 h

/-- The state after a clock in `IDLE`. -/
def idleNext (s : Core) (i : Pins) : State :=
  if i.iDataValid = true ∧ s.rxByteCnt < 12 then
    if (s.rxByteCnt.toNat + 1) % 4 = 0 then .txOne else .idle
  else if s.rxByteCnt = 12 then .recvInst
  else .idle

theorem step_idle (hs : s.state = .idle) (hv : s.oDataValid = s.stateCount) :
    (s.step i).state = s.idleNext i ∧
      (s.step i).oDataValid = s.released i ∧ (s.step i).stateCount = s.released i ∧
      (s.step i).rxByteCnt =
        (if i.iDataValid = true ∧ s.rxByteCnt < 12 then s.rxByteCnt + 1 else s.rxByteCnt) := by
  have hpoll : ¬Polled i s := fun h => h.2.2.1 hs
  have hread : ¬ReadOut i s := not_readOut i (by rw [hs]; decide) (by rw [hs]; decide)
  rw [step_eq i hv, offers_of_not_polled i hpoll]
  simp only [caseState, hs, caseIdle, idleNext, hread, if_false]
  split_ifs <;> exact ⟨rfl, rfl, rfl, rfl⟩

theorem step_txOne (hs : s.state = .txOne) (hv : s.oDataValid = s.stateCount) :
    (s.step i).state = (if i.iState0 then .idle else .txOne) ∧
      (s.step i).oDataValid = !i.iState0 ∧ (s.step i).stateCount = !i.iState0 ∧
      (s.step i).rxByteCnt = s.rxByteCnt := by
  have hpoll : ¬Polled i s := fun h => h.2.2.2.2.1 hs
  have hread : ¬ReadOut i s := not_readOut i (by rw [hs]; decide) (by rw [hs]; decide)
  rw [step_eq i hv, offers_of_not_polled i hpoll]
  simp only [caseState, hs, caseTxOne, hread, if_false]
  cases hi : i.iState0 <;> cases hc : s.stateCount <;> simp [released, hi, hc]

/-- In the other states the handshake serves the polls. -/
theorem step_handshake (h1 : s.state ≠ .txOne) (h2 : s.state ≠ .txData)
    (hv : s.oDataValid = s.stateCount) :
    (s.step i).stateCount = s.offers i ∧ (s.step i).oDataTx = s.offeredByte i := by
  rw [step_eq i hv]
  cases hs : s.state with
  | txOne => exact absurd hs h1
  | txData => exact absurd hs h2
  | idle =>
    simp only [caseState, hs, caseIdle]
    split_ifs <;> exact ⟨rfl, rfl⟩
  | recvInst =>
    simp only [caseState, hs, caseRecvInst]
    split_ifs <;> exact ⟨rfl, rfl⟩
  | sm4Step1 =>
    simp only [caseState, hs, caseSm4Step1]
    split_ifs <;> exact ⟨rfl, rfl⟩
  | sm3Step1 | sm3Step2 | sm3Step3 | sm4Step2 | sm4Step3 =>
    simp only [caseState, hs]
    exact ⟨rfl, rfl⟩

theorem step_txOne_byte (hs : s.state = .txOne) (hv : s.oDataValid = s.stateCount) :
    (s.step i).oDataTx =
      if i.iState0 = false ∧ s.stateCount = false then 1 else s.oDataTx := by
  have hpoll : ¬Polled i s := fun h => h.2.2.2.2.1 hs
  rw [step_eq i hv]
  simp only [caseState, hs, caseTxOne, offeredByte, hpoll, if_false]
  split_ifs <;> rfl

theorem step_sm4Step1 (hs : s.state = .sm4Step1) (hv : s.oDataValid = s.stateCount) :
    (s.sboxSel = 4 → (s.step i).state = .sm4Step2) ∧
      (s.sboxSel ≠ 4 → (s.step i).state = .sm4Step1 ∧ (s.step i).sboxSel = s.sboxSel + 1) := by
  have hread : ¬ReadOut i s := not_readOut i (by rw [hs]; decide) (by rw [hs]; decide)
  rw [step_eq i hv]
  simp only [caseState, hs, caseSm4Step1, hread, if_false]
  constructor
  · intro h4
    rw [if_pos h4]
  · intro h4
    rw [if_neg h4]
    exact ⟨rfl, rfl⟩

theorem step_read (h : ReadOut i s) (hv : s.oDataValid = s.stateCount) :
    (s.step i).state = .txData ∧ (s.step i).txByteCnt = s.txByteCnt := by
  rw [step_eq i hv, if_pos h]
  obtain ⟨-, -, hs | hs, -⟩ := h
  · simp only [caseState, hs, caseSm3Step3, and_self]
  · simp only [caseState, hs, caseSm4Step3, and_self]

/-- `TX_DATA` with the transmitter free: the next byte is offered, or the reply is complete. -/
theorem step_txData_free (hs : s.state = .txData) (hv : s.oDataValid = s.stateCount)
    (hi : i.iState0 = false) (hc : s.stateCount = false) :
    (s.txByteCnt = 5 → (s.step i).state = .idle ∧ (s.step i).stateCount = false) ∧
      (s.txByteCnt ≠ 5 → (s.step i).state = .txData ∧ (s.step i).stateCount = true ∧
        (s.step i).txByteCnt = s.txByteCnt + 1) := by
  have hpoll : ¬Polled i s := fun h => h.2.2.2.1 hs
  rw [step_eq i hv, offers_of_not_polled i hpoll]
  simp only [caseState, hs, caseTxData, hi, hc, and_self, if_true]
  constructor
  · intro h5
    rw [if_pos h5]
    refine ⟨rfl, ?_⟩
    show s.released i = false
    rw [released, hc, Bool.and_false]
  · intro h5
    rw [if_neg h5]
    exact ⟨rfl, rfl, rfl⟩

/-- `TX_DATA` with a byte offered or on its way. -/
theorem step_txData_busy (hs : s.state = .txData) (hv : s.oDataValid = s.stateCount)
    (hbusy : i.iState0 = true ∨ s.stateCount = true) :
    (s.step i).state = .txData ∧ (s.step i).stateCount = s.released i ∧
      (s.step i).txByteCnt = s.txByteCnt ∧ (s.step i).oDataTx = s.oDataTx := by
  have hpoll : ¬Polled i s := fun h => h.2.2.2.1 hs
  have hread : ¬ReadOut i s := not_readOut i (by rw [hs]; decide) (by rw [hs]; decide)
  have hfree : ¬(i.iState0 = false ∧ s.stateCount = false) := by
    rintro ⟨hi, hc⟩
    rcases hbusy with h | h
    · rw [hi] at h
      cases h
    · rw [hc] at h
      cases h
  rw [step_eq i hv, offers_of_not_polled i hpoll]
  simp only [caseState, hs, caseTxData, hfree, hread, offeredByte, hpoll, if_false]
  cases hi : i.iState0 with
  | true => exact ⟨rfl, by simp [released, hi], rfl, rfl⟩
  | false => exact ⟨rfl, rfl, rfl, rfl⟩

/-- The source side of the handshake: a byte that is offered stays until `i_state_0` is high, and is
then withdrawn. -/
theorem step_outputs (hv : s.oDataValid = s.stateCount) :
    (s.step i).oDataValid = (s.step i).stateCount ∧
      (i.iState0 = true → (s.step i).oDataValid = false) ∧
      (i.iState0 = false → s.oDataValid = true →
        (s.step i).oDataValid = true ∧ (s.step i).oDataTx = s.oDataTx) := by
  by_cases hone : s.state = .txOne
  · obtain ⟨-, hvalid, hcount, -⟩ := step_txOne i hone hv
    refine ⟨hvalid.trans hcount.symm, fun hi => by rw [hvalid, hi]; rfl, fun hi hs => ?_⟩
    rw [hvalid, hi, step_txOne_byte i hone hv, if_neg (by rw [← hv, hs]; simp)]
    exact ⟨rfl, rfl⟩
  · by_cases hdata : s.state = .txData
    · have hpoll : ¬Polled i s := fun h => h.2.2.2.1 hdata
      have hread : ¬ReadOut i s := not_readOut i (by rw [hdata]; decide) (by rw [hdata]; decide)
      rw [step_eq i hv, offers_of_not_polled i hpoll]
      simp only [caseState, hdata, caseTxData, offeredByte, hpoll, hread, released, if_false, hv]
      cases i.iState0 with
      | true => simp
      | false =>
        cases s.stateCount with
        | true => simp
        | false =>
          simp only [and_self, if_true]
          split_ifs <;> simp
    · have hvalid : (s.step i).oDataValid = s.offers i := by
        rw [step_eq i hv]
        cases hs : s.state with
        | txOne => exact absurd hs hone
        | txData => exact absurd hs hdata
        | idle =>
          simp only [caseState, hs, caseIdle]
          split_ifs <;> rfl
        | recvInst =>
          simp only [caseState, hs, caseRecvInst]
          split_ifs <;> rfl
        | sm4Step1 =>
          simp only [caseState, hs, caseSm4Step1]
          split_ifs <;> rfl
        | sm3Step1 | sm3Step2 | sm3Step3 | sm4Step2 | sm4Step3 =>
          simp only [caseState, hs]
          rfl
      obtain ⟨hcount, hbyte⟩ := step_handshake i hone hdata hv
      refine ⟨hvalid.trans hcount.symm, fun hi => ?_, fun hi hs => ?_⟩
      · have hpoll : ¬Polled i s := fun h => by
          have := h.2.2.2.2.2.1
          rw [hi] at this
          cases this
        rw [hvalid, offers, if_neg hpoll, if_pos hi]
      · have hpoll : ¬Polled i s := fun h => by
          have := h.2.2.2.2.2.2
          rw [← hv, hs] at this
          cases this
        rw [hvalid, hbyte, offers, offeredByte, if_neg hpoll, if_neg hpoll,
          if_neg (by rw [hi]; decide), ← hv, hs]
        exact ⟨rfl, rfl⟩

end Vcil.Rtl.Core
