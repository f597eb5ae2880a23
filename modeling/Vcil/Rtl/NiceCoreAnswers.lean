import Mathlib.Data.List.Intervals
import Vcil.Rtl.NiceCoreService

/-!
# What the coprocessor answers

The answers of `nice_core` other than results: the acknowledgement `0x01` of each group of four
request bytes, and the reply to a poll.  The pins are any sequence in which `i_state_0` comes from
a transmitter.

* `Transmitter`: the rules that a transmitter keeps, whatever its timing;
* `handed`: the bytes handed over in a range of clocks;
* `Acknowledged`, `PollAnswered`, `PollIgnored`: what may become of a group and of a poll;
* `answersOnce`: a group that meets a free transmitter is acknowledged once, a poll that meets a
  free transmitter is answered once, and any other poll is not answered at all.
-/

namespace Vcil.Rtl.Core

variable {is : ℕ → Pins} {n m k : ℕ}

/-- The registers before clock `n`, with the pins `is`. -/
def atClock (is : ℕ → Pins) (n : ℕ) : Core := Clocked.trace step reset is n

theorem atClock_succ (n : ℕ) : atClock is (n + 1) = (atClock is n).step (is n) := rfl

/-- `i_state_0` rises when a byte is offered, sooner or later for every offer, and falls sooner or
later, after the offer has been withdrawn. -/
structure Transmitter (is : ℕ → Pins) : Prop where
  starts : (is 0).iState0 = false
  rises : ∀ n, (is n).iState0 = false → (is (n + 1)).iState0 = true →
    (atClock is (n + 1)).oDataValid = true
  takes : ∀ n, (atClock is n).oDataValid = true → ∃ m ≥ n, (is m).iState0 = true
  holds : ∀ n, (is n).iState0 = true → (atClock is n).oDataValid = true →
    (is (n + 1)).iState0 = true
  falls : ∀ n, ∃ m ≥ n, (is m).iState0 = false

/-- The bytes handed over in the clocks from `n` to `m - 1`. -/
def handed (is : ℕ → Pins) (n m : ℕ) : List Byte :=
  (List.Ico n m).flatMap fun k =>
    if (atClock is k).HandsOver (is k) then [(atClock is (k + 1)).oDataTx] else []

/-- Neither is the transmitter sending in clock `n`, nor is a byte offered to it. -/
def Free (is : ℕ → Pins) (n : ℕ) : Prop :=
  (is n).iState0 = false ∧ (atClock is n).stateCount = false

/-- The byte accepted in clock `n` is the fourth of its group. -/
def CompletesGroup (is : ℕ → Pins) (n : ℕ) : Prop :=
  (atClock is n).Accepts (is n) ∧ ((atClock is n).rxByteCnt.toNat + 1) % 4 = 0

/-- A poll arrives in clock `n`, in `RECV_INST` or in a `STEP` state. -/
def ReceivesPoll (is : ℕ → Pins) (n : ℕ) : Prop :=
  (is n).iDataValid = true ∧ (is n).iDataRx = 0xff ∧
    ((atClock is n).state = .recvInst ∨ (atClock is n).Computing)

instance (n : ℕ) : Decidable (Free is n) := inferInstanceAs (Decidable (_ ∧ _))
instance (n : ℕ) : Decidable (CompletesGroup is n) := inferInstanceAs (Decidable (_ ∧ _))
instance (n : ℕ) : Decidable (ReceivesPoll is n) := inferInstanceAs (Decidable (_ ∧ _))

/-- After clock `n` the core is in `TX_ONE` for a while, and in this time hands over one byte,
`0x01`. -/
def Acknowledged (is : ℕ → Pins) (n : ℕ) : Prop :=
  ∃ m > n + 1, (∀ k, n < k → k < m → (atClock is k).state = .txOne) ∧
    (atClock is m).state ≠ .txOne ∧ handed is n m = [1]

/-- Clock `k` has an occasion of its own to hand over a byte: another poll, `TX_ONE` or
`TX_DATA`. -/
def Asked (is : ℕ → Pins) (k : ℕ) : Prop :=
  ReceivesPoll is k ∨ (atClock is k).state = .txOne ∨ (atClock is k).state = .txData

instance (k : ℕ) : Decidable (Asked is k) := inferInstanceAs (Decidable (_ ∨ _))

/-- No other occasion occurs between the clocks `n` and `m`. -/
def Alone (is : ℕ → Pins) (n m : ℕ) : Prop := ∀ k, n < k → k < m → ¬Asked is k

/-- The poll of clock `n` leads to one handed over byte, the `calc_done` of that clock. -/
def PollAnswered (is : ℕ → Pins) (n : ℕ) : Prop :=
  ∃ m > n, Alone is n m ∧
    ∀ m' ≥ m, Alone is n m' → handed is n m' = [if (atClock is n).calcDone then 1 else 0]

/-- The poll of clock `n` leads to no byte. -/
def PollIgnored (is : ℕ → Pins) (n : ℕ) : Prop :=
  ∀ m > n, Alone is n m → handed is n m = []

/-! ### One clock -/

/-- The two registers of the handshake agree. -/
theorem atClock_handshake (is : ℕ → Pins) (n : ℕ) :
    (atClock is n).oDataValid = (atClock is n).stateCount := by
  induction n with
  | zero => rfl
  | succ n ih => exact (step_outputs (is n) ih).1

theorem not_handsOver_of_valid (h : (atClock is k).oDataValid = true) :
    ¬(atClock is k).HandsOver (is k) := by
  rintro ⟨hlow, -⟩
  rw [h] at hlow
  cases hlow

/-- Without a poll, nothing is handed over outside `TX_ONE` and `TX_DATA`. -/
theorem not_handsOver (h1 : (atClock is k).state ≠ .txOne) (h2 : (atClock is k).state ≠ .txData)
    (hpoll : ¬Polled (is k) (atClock is k)) : ¬(atClock is k).HandsOver (is k) := by
  rintro ⟨hlow, hhigh⟩
  have hv := atClock_handshake is k
  have hcount := (step_handshake (is k) h1 h2 hv).1
  rw [(step_outputs (is k) hv).1, hcount, offers_of_not_polled (is k) hpoll, released, ← hv, hlow,
    Bool.and_false] at hhigh
  cases hhigh

theorem receivesPoll_of_polled (h : Polled (is k) (atClock is k)) : ReceivesPoll is k := by
  obtain ⟨hv, hff, h1, h2, h3, -, -⟩ := h
  refine ⟨hv, hff, ?_⟩
  cases hs : (atClock is k).state <;> simp_all [Computing, State.code]

theorem ReceivesPoll.polled_iff (h : ReceivesPoll is n) :
    Polled (is n) (atClock is n) ↔ Free is n := by
  obtain ⟨hv, hff, hstate⟩ := h
  constructor
  · rintro ⟨-, -, -, -, -, hi, hc⟩
    exact ⟨hi, hc⟩
  · rintro ⟨hi, hc⟩
    rcases hstate with hs | hs
    · exact ⟨hv, hff, by rw [hs]; decide, by rw [hs]; decide, by rw [hs]; decide, hi, hc⟩
    · exact ⟨hv, hff, hs.state_ne.1, hs.state_ne.2.2.1, hs.state_ne.2.2.2, hi, hc⟩

theorem ReceivesPoll.state_ne (h : ReceivesPoll is n) :
    (atClock is n).state ≠ .txOne ∧ (atClock is n).state ≠ .txData := by
  obtain ⟨-, -, hs | hs⟩ := h
  · rw [hs]
    decide
  · exact ⟨hs.state_ne.2.2.2, hs.state_ne.2.2.1⟩

theorem not_handsOver_of_not_asked (h : ¬Asked is k) : ¬(atClock is k).HandsOver (is k) :=
  not_handsOver (fun hs => h (.inr (.inl hs))) (fun hs => h (.inr (.inr hs)))
    fun hpoll => h (.inl (receivesPoll_of_polled hpoll))

/-! ### Ranges of clocks -/

theorem handed_append (h1 : n ≤ k) (h2 : k ≤ m) : handed is n m = handed is n k ++ handed is k m := by
  rw [handed, ← List.Ico.append_consecutive h1 h2, List.flatMap_append]
  rfl

theorem handed_eq_nil (h : ∀ k, n ≤ k → k < m → ¬(atClock is k).HandsOver (is k)) :
    handed is n m = [] := by
  refine List.flatMap_eq_nil_iff.2 fun k hk => if_neg ?_
  rw [List.Ico.mem] at hk
  exact h k hk.1 hk.2

theorem handed_one (h : (atClock is k).HandsOver (is k)) :
    handed is k (k + 1) = [(atClock is (k + 1)).oDataTx] := by
  rw [handed, List.Ico.succ_singleton, List.flatMap_singleton, if_pos h]

/-! ### Acknowledgements -/

/-- A byte offered in `TX_ONE` stays there until the transmitter takes it. -/
theorem txOne_waits (hs : (atClock is n).state = .txOne) (hv : (atClock is n).oDataValid = true)
    (hlow : ∀ k, n ≤ k → k < m → (is k).iState0 = false) (hk : n ≤ k) (hkm : k ≤ m) :
    (atClock is k).state = .txOne ∧ (atClock is k).oDataValid = true := by
  induction k, hk using Nat.le_induction with
  | base => exact ⟨hs, hv⟩
  | succ k hk ih =>
    obtain ⟨hsk, -⟩ := ih (Nat.le_of_succ_le hkm)
    obtain ⟨hstate, hvalid, -, -⟩ := step_txOne (is k) hsk (atClock_handshake is k)
    rw [atClock_succ, hstate, hvalid, hlow k hk hkm]
    exact ⟨rfl, rfl⟩

/-- The first clock from `n` on in which the transmitter is busy. -/
theorem Transmitter.first_busy (h : Transmitter is) (hv : (atClock is n).oDataValid = true) :
    ∃ m ≥ n, (is m).iState0 = true ∧ ∀ k, n ≤ k → k < m → (is k).iState0 = false := by
  have hex : ∃ m, n ≤ m ∧ (is m).iState0 = true := by
    obtain ⟨m, hm, hi⟩ := h.takes n hv
    exact ⟨m, hm, hi⟩
  refine ⟨Nat.find hex, (Nat.find_spec hex).1, (Nat.find_spec hex).2, fun k hk hlt => ?_⟩
  have hmin := Nat.find_min hex hlt
  simpa [hk] using hmin

theorem CompletesGroup.state_succ (h : CompletesGroup is n) :
    (atClock is (n + 1)).state = .txOne := by
  obtain ⟨⟨hs, hv, hlt⟩, hmod⟩ := h
  rw [atClock_succ, (step_idle (is n) hs (atClock_handshake is n)).1, idleNext,
    if_pos ⟨hv, hlt⟩, if_pos hmod]

theorem acknowledged (h : Transmitter is) (hgroup : CompletesGroup is n)
    (hfree : Free is (n + 1)) : Acknowledged is n := by
  obtain ⟨hi, hc⟩ := hfree
  have hone := hgroup.state_succ
  have hv := atClock_handshake is (n + 1)
  have hstep := step_txOne (is (n + 1)) hone hv
  rw [hi] at hstep
  have hstate : (atClock is (n + 2)).state = .txOne := hstep.1
  have hvalid : (atClock is (n + 2)).oDataValid = true := hstep.2.1
  have hbyte : (atClock is (n + 2)).oDataTx = 1 :=
    (step_txOne_byte (is (n + 1)) hone hv).trans (if_pos ⟨hi, hc⟩)
  obtain ⟨m, hm, hbusy, hlow⟩ := h.first_busy (n := n + 2) hvalid
  have hwait := fun k (hk : n + 2 ≤ k) => txOne_waits (m := m) hstate hvalid hlow hk
  refine ⟨m + 1, by omega, fun k hk hkm => ?_, ?_, ?_⟩
  · rcases Nat.lt_or_ge k (n + 2) with hlt | hge
    · obtain rfl : k = n + 1 := by omega
      exact hone
    · exact (hwait k hge (Nat.le_of_lt_succ hkm)).1
  · rw [atClock_succ, (step_txOne (is m) (hwait m hm (Nat.le_refl m)).1 (atClock_handshake is m)).1,
      hbusy]
    decide
  · -- clock `n` is in `IDLE`, clock `n + 1` offers the byte, and the offer then stays
    have hfirst : handed is n (n + 1) = [] := handed_eq_nil fun k hk hlt => by
      obtain rfl : k = n := by omega
      rintro ⟨-, hhigh⟩
      exact Bool.noConfusion ((hv.trans hc).symm.trans hhigh)
    have hsecond : handed is (n + 1) (n + 2) = [1] := by
      rw [handed_one ⟨hv.trans hc, hvalid⟩, hbyte]
    have hrest : handed is (n + 2) (m + 1) = [] := handed_eq_nil fun k hk hlt =>
      not_handsOver_of_valid (hwait k hk (Nat.le_of_lt_succ hlt)).2
    rw [handed_append (Nat.le_succ n) (show n + 1 ≤ m + 1 by omega),
      handed_append (Nat.le_succ (n + 1)) (show n + 2 ≤ m + 1 by omega), hfirst, hsecond, hrest]
    rfl

/-! ### Polls -/

theorem handed_alone (h : Alone is n m) : handed is (n + 1) m = [] :=
  handed_eq_nil fun k hk hkm => not_handsOver_of_not_asked (h k hk hkm)

theorem pollAnswered (h : ReceivesPoll is n) (hfree : Free is n) : PollAnswered is n := by
  have hpoll := h.polled_iff.2 hfree
  obtain ⟨hone, hdata⟩ := h.state_ne
  have hv := atClock_handshake is n
  obtain ⟨hcount, hbyte⟩ := step_handshake (is n) hone hdata hv
  rw [offers, if_pos hpoll] at hcount
  rw [offeredByte, if_pos hpoll] at hbyte
  have hnow : handed is n (n + 1) = [if (atClock is n).calcDone then 1 else 0] := by
    rw [handed_one ⟨hv.trans hfree.2, (step_outputs (is n) hv).1.trans hcount⟩]
    exact congrArg (fun b => [b]) hbyte
  refine ⟨n + 1, Nat.lt_succ_self n, fun k hk hkm => absurd hkm (by omega), fun m hm halone => ?_⟩
  rw [handed_append (Nat.le_succ n) hm, hnow, handed_alone halone, List.append_nil]

theorem pollIgnored (h : ReceivesPoll is n) (hbusy : ¬Free is n) : PollIgnored is n := by
  have hnow : handed is n (n + 1) = [] := handed_eq_nil fun k hk hlt => by
    obtain rfl : k = n := by omega
    exact not_handsOver h.state_ne.1 h.state_ne.2 fun hpoll => hbusy (h.polled_iff.1 hpoll)
  intro m hm halone
  rw [handed_append (Nat.le_succ n) hm, hnow, handed_alone halone, List.append_nil]

/-- Every group that meets a free transmitter is acknowledged once, and a poll is answered once or
not at all, as it meets the transmitter free or not. -/
theorem answersOnce (h : Transmitter is) :
    (∀ n, CompletesGroup is n → Free is (n + 1) → Acknowledged is n) ∧
      ∀ n, ReceivesPoll is n →
        (Free is n → PollAnswered is n) ∧ (¬Free is n → PollIgnored is n) :=
  ⟨fun _ hgroup hfree => acknowledged h hgroup hfree,
    fun _ hpoll => ⟨pollAnswered hpoll, pollIgnored hpoll⟩⟩

/-- A transmitter that takes some clocks for each byte.  The second group of the request is complete
while it sends, and a second poll follows the first one after two clocks. -/
def crowded : ℕ → Pins :=
  Clocked.extend (still false)
    [given 0x7b, given 0x71, given 0, given 0,
      still false, still false, still true, still true,
      ⟨1, true, true⟩, ⟨2, true, true⟩, ⟨3, true, true⟩, ⟨4, true, true⟩, still true,
      given 0, given 0, given 0, given 0,
      still false, still false, still true, still true,
      still false, still false, still false, still false,
      given 0xff, still false, ⟨0xff, true, true⟩, still true]

theorem crowded_end (hk : 29 ≤ k) : crowded k = still false := Clocked.extend_end _ hk

theorem crowded_fixed (hk : 29 ≤ k) : atClock crowded k = atClock crowded 29 :=
  Clocked.trace_of_fixed (by decide +kernel) (fun _ => crowded_end) hk

theorem transmitter_crowded : Transmitter crowded where
  starts := rfl
  rises n hlow hhigh := by
    have hall : ∀ n < 29, (crowded n).iState0 = false → (crowded (n + 1)).iState0 = true →
        (atClock crowded (n + 1)).oDataValid = true := by
      decide +kernel
    rcases Nat.lt_or_ge n 29 with hlt | hge
    · exact hall n hlt hlow hhigh
    · rw [crowded_end (Nat.le_succ_of_le hge)] at hhigh
      cases hhigh
  takes n hv := by
    have hall : ∀ n < 29, (atClock crowded n).oDataValid = true →
        ∃ m < 29, n ≤ m ∧ (crowded m).iState0 = true := by
      decide +kernel
    rcases Nat.lt_or_ge n 29 with hlt | hge
    · obtain ⟨m, -, hm, hi⟩ := hall n hlt hv
      exact ⟨m, hm, hi⟩
    · rw [crowded_fixed hge] at hv
      exact absurd hv (by decide +kernel)
  holds n hi hv := by
    have hall : ∀ n < 29, (crowded n).iState0 = true → (atClock crowded n).oDataValid = true →
        (crowded (n + 1)).iState0 = true := by
      decide +kernel
    rcases Nat.lt_or_ge n 29 with hlt | hge
    · exact hall n hlt hi hv
    · rw [crowded_end hge] at hi
      cases hi
  falls n := by
    refine ⟨29 + n, Nat.le_add_left n 29, ?_⟩
    rw [crowded_end (Nat.le_add_right 29 n)]
    rfl

/-- The first group and the first poll are answered, the second poll is not. -/
theorem answersOnce_crowded : Transmitter crowded ∧ Acknowledged crowded 3 ∧
    PollAnswered crowded 25 ∧ PollIgnored crowded 27 :=
  have h := answersOnce transmitter_crowded
  ⟨transmitter_crowded, h.1 3 (by decide +kernel) (by decide +kernel),
    (h.2 25 (by decide +kernel)).1 (by decide +kernel),
    (h.2 27 (by decide +kernel)).2 (by decide +kernel)⟩

/-- The second group and the second poll get no answer. -/
theorem not_answersAll_crowded : Transmitter crowded ∧
    (¬∀ n, CompletesGroup crowded n → Acknowledged crowded n) ∧
      ¬∀ n, ReceivesPoll crowded n → PollAnswered crowded n := by
  refine ⟨transmitter_crowded, fun hall => ?_, fun hall => ?_⟩
  · obtain ⟨m, hm, hone, -, hhanded⟩ := hall 11 (by decide +kernel)
    rcases Nat.lt_or_ge m 14 with hlt | hge
    · obtain rfl : m = 13 := by omega
      have hnone : handed crowded 11 13 = [] := by decide +kernel
      rw [hnone] at hhanded
      cases hhanded
    · exact absurd (hone 13 (by decide) hge) (by decide +kernel)
  · have hpoll : ReceivesPoll crowded 27 := by decide +kernel
    obtain ⟨m, hm, halone, hone⟩ := hall 27 hpoll
    have hbyte := hone m (Nat.le_refl m) halone
    rw [pollIgnored hpoll (by decide +kernel) m hm halone] at hbyte
    cases hbyte

end Vcil.Rtl.Core
