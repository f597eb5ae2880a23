import Vcil.Rtl.UartTopService
import Vcil.System.Device

/-!
# The board at its two lines

The links and the transmitter of `Device` say of the serial lines only that they are reliable and
how fast they may be.  `uart_top` keeps this promise, whatever comes in on `i_uart_rx`.

* `tick`: what the links and the transmitter of `Device` do in a clock of `uart_top`;
* `Follows`: a device that has been sent what the receiver reads off the line, beside `uart_top`;
* `Follows.clock`, `follows_run`: it stays beside it;
* `refines_device`: what this says of the two lines.
-/

namespace Vcil.System

open Vcil.Rtl Clocked SerialLine

variable {C parityType : ℕ}

variable (C parityType) in
/-- The receiver after `n` clocks. -/
def rxAfter (line : ℕ → Bool) (n : ℕ) : UartRx (uartTop C parityType) := UartRx.reset.after line n

variable (C parityType) in
/-- The bytes read off the line in the first `n` clocks. -/
def readOff (line : ℕ → Bool) (n : ℕ) : List Byte :=
  (UartRx.reset : UartRx (uartTop C parityType)).shown line n

variable (C parityType) in
/-- What the links and the transmitter do in clock `n`. -/
def tick (line : ℕ → Bool) (n : ℕ) : Tick where
  raise := true
  lower := !(UartTop.after C parityType line (n + 1)).tx.oState0
  deliver := (rxAfter C parityType line n).oRxDone

variable (C parityType) in
/-- What the core offers to the transmitter. -/
def offered (line : ℕ → Bool) : ℕ → TxPins (uartTop C parityType).dataWidth :=
  NiceTx.shown C parityType (UartTop.received C parityType line)

variable (C parityType) in
/-- The transmitter of the device in clock `n`, and the bytes it has sent: either the transmitter is
at rest, or the word offered in clock `t` is being sent since. -/
inductive Sends (line : ℕ → Bool) (n : ℕ) : Option (Byte × ℕ) → List Byte → Prop
  | rest {up : List Byte} (hidle : UartTx.Idle (offered C parityType line) n)
      (hup : (TxPins.offers (offered C parityType line) n).map Prod.snd = up) : Sends line n none up
  | busy {up : List Byte} (t e : ℕ) (hn : n = t + (e + 1)) (he : e + 1 < 9 * C + C / 2 + 4)
      (hidle : UartTx.Idle (offered C parityType line) t)
      (hrise : TxPins.rises (offered C parityType line) t = true)
      (hup : (TxPins.offers (offered C parityType line) n).map Prod.snd =
        up ++ [(offered C parityType line t).iDataTx]) :
      Sends line n (some ((offered C parityType line t).iDataTx, e)) up

variable (C parityType) in
/-- The device beside `uart_top` in clock `n`; it has been sent what is read off the line until
clock `N`. -/
structure Follows (line : ℕ → Bool) (N n : ℕ) (d : Device) : Prop where
  core : d.core = (UartTop.after C parityType line n).core
  sends : Sends C parityType line n d.tx d.up
  down : readOff C parityType line (n - 1) ++ d.down = readOff C parityType line N
  /-- the first byte on the way down has been there since the start, or since the last delivery -/
  age : d.age = n ∨
    ∃ k, (rxAfter C parityType line k).done? ≠ none ∧ k + 1 + d.age = n
  rx : d.rx = []

section Follows

variable {line : ℕ → Bool} {N n frame : ℕ} {d : Device} (hC : 8 ≤ C) (hC' : C ≤ 65536)

theorem offered_handshake : UartTx.Handshake (offered C parityType line) := NiceTx.handshake _

theorem state0_eq (n : ℕ) : (UartTop.after C parityType line n).tx.oState0 =
    (UartTx.after (offered C parityType line) n).oState0 := by
  rw [UartTop.tx_after, NiceTx.tx_after]
  rfl

/-- The words taken from the line up to the clock before. -/
theorem readOff_succ (n : ℕ) : readOff C parityType line n =
    readOff C parityType line (n - 1) ++ (rxAfter C parityType line n).done?.toList := by
  cases n with
  | zero => rfl
  | succ n => exact UartRx.shown_succ _ line n

include hC hC'

theorem Sends.state0 {tx : Option (Byte × ℕ)} {up : List Byte}
    (h : Sends C parityType line n tx up) :
    (UartTop.after C parityType line n).tx.oState0 = tx.isSome := by
  rw [state0_eq]
  cases h with
  | rest hidle => exact hidle.resting.state0
  | busy t e hn he hidle hrise =>
    rw [hn]
    exact UartTx.busy_at offered_handshake (Nat.succ_pos 7) (show 8 < 15 by decide) hC
      (UartTx.half_lt_bitTime parityType hC hC') hidle hrise (Nat.succ_pos e)
      (by rw [UartTx.duration_uartTop parityType hC hC']; exact he)

/-- A byte is on the way down for a frame before it is delivered. -/
theorem Follows.delivery (hframe : frame ≤ 9 * C + C / 2 + 1) (h : Follows C parityType line N n d)
    (hn : n ≤ N) :
    d.delivery frame (tick C parityType line n) = (rxAfter C parityType line n).done? := by
  have hdown := h.down
  by_cases hdone : (rxAfter C parityType line n).oRxDone = true
  · have hsome : (rxAfter C parityType line n).done? =
        some (rxAfter C parityType line n).oUartData := if_pos hdone
    obtain ⟨hfirst, hbefore⟩ := UartRx.done_apart (p := uartTop C parityType) line
      (Nat.succ_pos 7) (show 8 < 16 by decide) (show 6 ≤ C by omega) hC' rfl UartRx.ready_reset
      (show (rxAfter C parityType line n).done? ≠ none by rw [hsome]; exact Option.some_ne_none _)
    have hage : frame ≤ d.age + 1 := by
      rcases h.age with hage | ⟨k, hk, hage⟩
      · change 9 * C + C / 2 < n at hfirst
        omega
      · have := hbefore k (by omega) hk
        change k + (9 * C + C / 2) < n at this
        omega
    obtain ⟨rest, hrest⟩ : readOff C parityType line n <+: readOff C parityType line N :=
      UartRx.shown_prefix _ line hn
    rw [readOff_succ, hsome, List.append_assoc] at hrest
    rw [← hrest] at hdown
    rw [Device.delivery, if_pos ⟨hdone, hage⟩, List.append_cancel_left hdown, hsome]
    rfl
  · rw [Device.delivery, if_neg fun hd => hdone hd.1]
    exact (if_neg hdone).symm

/-- What a clock makes of the byte in the transmitter. -/
theorem Sends.clock (hframe : frame ≤ 9 * C + C / 2 + 1)
    (hcore : d.core = (UartTop.after C parityType line n).core)
    (h : Sends C parityType line n d.tx d.up) :
    Sends C parityType line (n + 1) (d.nextTx frame (tick C parityType line n))
      (d.up ++ (d.sent frame (tick C parityType line n)).toList) := by
  have hhand : UartTx.Handshake (offered C parityType line) := offered_handshake
  have hlt := UartTx.half_lt_bitTime parityType hC hC'
  have hdur := UartTx.duration_uartTop parityType hC hC'
  have hpins : (⟨d.core.oDataTx, d.core.oDataValid⟩ : TxPins 8) =
      offered C parityType line n := by
    rw [hcore, UartTop.core_after]
    rfl
  generalize htx : d.tx = tx at h
  cases h with
  | rest hidle hup =>
    have hsent : d.sent frame (tick C parityType line n) = none := by rw [Device.sent, htx]
    have hnext : d.nextTx frame (tick C parityType line n) =
        if (offered C parityType line n).iDataValid
        then some ((offered C parityType line n).iDataTx, 0) else none := by
      rw [Device.nextTx, htx, ← hpins]
      simp [tick]
    rw [hsent, hnext, Option.toList_none, List.append_nil, ← hidle.rises_iff]
    cases hrise : TxPins.rises (offered C parityType line) n with
    | true =>
      refine .busy n 0 rfl (by omega) hidle hrise ?_
      rw [TxPins.offers_succ, hrise, if_pos rfl, List.map_append, hup]
      rfl
    | false =>
      refine .rest (hidle.wait hrise hC) ?_
      rw [TxPins.offers_succ, hrise, if_neg Bool.false_ne_true, List.append_nil, hup]
  | busy t e hn he hidle hrise hup =>
    subst hn
    have hsame : TxPins.offers (offered C parityType line) (t + (e + 1) + 1) =
        TxPins.offers (offered C parityType line) (t + (e + 1)) := by
      rw [Nat.add_assoc, UartTx.offers_sending hhand (Nat.succ_pos 7) (show 8 < 15 by decide) hC hlt
        hidle hrise (by omega) (by rw [hdur]; omega), UartTx.offers_sending hhand (Nat.succ_pos 7)
        (show 8 < 15 by decide) hC hlt hidle hrise (by omega) (by rw [hdur]; omega)]
    rcases Nat.lt_or_ge (e + 2) (9 * C + C / 2 + 4) with hmore | hlast
    · have hbusy : (tick C parityType line (t + (e + 1))).lower = false := by
        have := UartTx.busy_at hhand (Nat.succ_pos 7) (show 8 < 15 by decide) hC hlt hidle hrise
          (show 1 ≤ e + 2 by omega) (by rw [hdur]; exact hmore)
        rw [tick, state0_eq, Nat.add_assoc, this]
        rfl
      have hsent : d.sent frame (tick C parityType line (t + (e + 1))) = none := by
        rw [Device.sent, htx]
        simp [hbusy]
      rw [Device.nextTx, hsent, htx, Option.toList_none, List.append_nil]
      exact .busy t (e + 1) rfl hmore hidle hrise (hsame ▸ hup)
    · have hagain := UartTx.idle_again hhand (Nat.succ_pos 7) (show 8 < 15 by decide) hC hlt hidle
        hrise
      rw [hdur, show t + (9 * C + C / 2 + 4) = t + (e + 1) + 1 by omega] at hagain
      have hfree : (tick C parityType line (t + (e + 1))).lower = true := by
        rw [tick, state0_eq, hagain.resting.state0]
        rfl
      have hsent : d.sent frame (tick C parityType line (t + (e + 1))) =
          some (offered C parityType line t).iDataTx := by
        rw [Device.sent, htx]
        exact if_pos ⟨hfree, by omega⟩
      rw [Device.nextTx, hsent, htx]
      exact .rest hagain (hsame ▸ hup)

theorem Follows.clock (hframe : frame ≤ 9 * C + C / 2 + 1) (h : Follows C parityType line N n d)
    (hn : n ≤ N) :
    Follows C parityType line N (n + 1) (d.clock frame (tick C parityType line n)) := by
  have hdelivery := h.delivery hC hC' hframe hn
  have hdown := h.down
  have hpre : readOff C parityType line n <+: readOff C parityType line N :=
    UartRx.shown_prefix _ line hn
  refine ⟨?_, h.sends.clock hC hC' hframe h.core, ?_, ?_, h.rx⟩
  · have hstep : (UartTop.after C parityType line (n + 1)).core =
        (UartTop.after C parityType line n).core.step
          ⟨(rxAfter C parityType line n).oUartData, (rxAfter C parityType line n).oRxDone,
            (UartTop.after C parityType line n).tx.oState0⟩ := by
      rw [rxAfter, ← UartTop.rx_after]
      rfl
    show d.core.step (d.pins frame (tick C parityType line n)) = _
    rw [hstep, Device.pins, hdelivery, h.sends.state0 hC hC', h.core, UartRx.done?]
    cases (rxAfter C parityType line n).oRxDone with
    | true => rfl
    | false => exact (Core.step_invalid _ _ _).symm
  · show readOff C parityType line n ++
      (if (d.delivery frame (tick C parityType line n)).isSome then d.down.tail else d.down) = _
    obtain ⟨rest, hrest⟩ := hpre
    rw [readOff_succ, List.append_assoc] at hrest
    rw [← hrest] at hdown
    rw [hdelivery, List.append_cancel_left hdown, readOff_succ, ← hrest, List.append_assoc]
    cases (rxAfter C parityType line n).done? <;> rfl
  · have hnext : (d.clock frame (tick C parityType line n)).age =
        if (rxAfter C parityType line n).done?.isSome then 0 else d.age + 1 := by
      rw [← hdelivery]
      rfl
    rw [hnext]
    cases hdone : (rxAfter C parityType line n).done? with
    | some b => exact Or.inr ⟨n, by rw [hdone]; exact Option.some_ne_none b, rfl⟩
    | none =>
      rcases h.age with hage | ⟨k, hk, hage⟩
      · exact Or.inl (congrArg (· + 1) hage)
      · exact Or.inr ⟨k, hk, congrArg (· + 1) hage⟩

variable (parityType line) in
theorem follows_run (hframe : frame ≤ 9 * C + C / 2 + 1) (hn : n ≤ N) :
    Follows C parityType line N n (run (Device.clock frame)
      (Device.init.write (readOff C parityType line N)) (history (tick C parityType line) n)) := by
  induction n with
  | zero => exact ⟨rfl, .rest UartTx.idle_zero rfl, rfl, Or.inl rfl, rfl⟩
  | succ n ih =>
    rw [history_succ, run_concat]
    exact (ih (by omega)).clock hC hC' hframe (by omega)

omit hC hC' in
/-- The bytes sent and the one being sent are those that the core has offered. -/
theorem Sends.words {tx : Option (Byte × ℕ)} {up : List Byte}
    (h : Sends C parityType line n tx up) : up ++ (tx.map Prod.fst).toList =
      (TxPins.offers (offered C parityType line) n).map Prod.snd := by
  cases h with
  | rest hidle hup => rw [hup]; exact List.append_nil up
  | busy t e hn he hidle hrise hup => rw [hup]; rfl

variable (parityType line N) in
/-- Whatever the line `i_uart_rx` does, the board does what the device does with the bytes that are
read off the line, and `o_uart_tx` shows the bytes that the device sends, with stop bits of half a
bit time. -/
theorem refines_device (hframe : frame ≤ 9 * C + C / 2 + 1) :
    ∃ (reads : List (ℕ × Byte)) (ticks : List Tick) (d : Device),
      UartRx.Readings (uartTop C parityType) line reads ∧ ticks.length = N ∧
      run (Device.clock frame) (Device.init.write (reads.map Prod.snd)) ticks = d ∧
      d.core = (UartTop.after C parityType line N).core ∧
      d.tx.isSome = (UartTop.after C parityType line N).tx.oState0 ∧
      d.down = (UartTop.after C parityType line N).rx.done?.toList ∧
      Conveys (frame8N1 C) (C / 2 + 4) (UartTop.txLine C parityType line N)
        (d.up ++ (d.tx.map Prod.fst).toList) := by
  obtain ⟨reads, hreads, hread⟩ := UartRx.readings (p := uartTop C parityType) line (Nat.succ_pos 7)
    (show 8 < 16 by decide) (show 6 ≤ C by omega) hC' rfl UartRx.ready_reset N
  have hfollows := follows_run parityType line hC hC' hframe (Nat.le_refl N)
  rw [show readOff C parityType line N = reads.map Prod.snd from hread] at hfollows
  refine ⟨reads, history (tick C parityType line) N, _, hreads, by simp [history], rfl, ?_⟩
  generalize run _ _ _ = d at hfollows
  refine ⟨hfollows.core, (hfollows.sends.state0 hC hC').symm, ?_, ?_⟩
  · have hdown := hfollows.down
    rw [readOff_succ N] at hdown
    rw [UartTop.rx_after]
    exact List.append_cancel_left hdown
  · rw [hfollows.sends.words, UartTop.txLine_eq]
    exact UartTx.conveys_spaced hC hC' offered_handshake N

end Follows

/-- A line that is low for a thousand clocks now and then, more than a bit and less than a frame. -/
def lowNowAndThen (n : ℕ) : Bool := decide (1000 ≤ n % 7000)

theorem refines_device_868 :
    ∃ (reads : List (ℕ × Byte)) (ticks : List Tick) (d : Device),
      UartRx.Readings (uartTop 868 0) lowNowAndThen reads ∧ ticks.length = 200000 ∧
      run (Device.clock 8000) (Device.init.write (reads.map Prod.snd)) ticks = d ∧
      d.core = (UartTop.after 868 0 lowNowAndThen 200000).core ∧
      d.tx.isSome = (UartTop.after 868 0 lowNowAndThen 200000).tx.oState0 ∧
      d.down = (UartTop.after 868 0 lowNowAndThen 200000).rx.done?.toList ∧
      Conveys (frame8N1 868) 438 (UartTop.txLine 868 0 lowNowAndThen 200000)
        (d.up ++ (d.tx.map Prod.fst).toList) :=
  refines_device 0 lowNowAndThen 200000 (by decide) (by decide) (by decide)

end Vcil.System
