import Mathlib.Tactic.IntervalCases
import Vcil.Rtl.NiceCoreSteps
import Vcil.Rtl.UartTxRuns

/-!
# The coprocessor and its transmitter

`nice_core` and `uart_tx` as `uart_top` wires them: the core sees `o_state_0`, the transmitter
sees the byte and the valid flag of the core.

* `NiceTx`, `NiceTx.step`: the two machines over the inputs of the core;
* `NiceTx.handshake`: the core keeps the rules of a source of the transmitter;
* `NiceTx.faithful`: every byte the core commits is sent in one frame, in order.
-/

namespace Vcil.Rtl

open Clocked SerialLine

/-- The parameters of `uart_top`, but for the bit period. -/
abbrev uartTop (C parityType : ℕ) : UartParams := ⟨C, 8, 0, parityType⟩

/-- The frame of eight data bits without parity on the line, with bit time `B`. -/
def frame8N1 (B : ℕ) (b : Byte) : List Bool := UartRx.frame B b 0

namespace UartTx

/-- With eight data bits and no parity, a frame takes nine bit times and is followed by a high
level of at least `stop` clocks exactly when the offers leave that much room. -/
theorem conveys8N1_iff {C parityType : ℕ} (hC : 8 ≤ C) (hC' : C ≤ 65536)
    {is : ℕ → TxPins (uartTop C parityType).dataWidth} (h : Handshake is) {stop : ℕ}
    (hstop : 0 < stop) :
    (∀ N, Conveys (frame8N1 C) stop (line is N) ((TxPins.offers is N).map Prod.snd)) ↔
      ∀ N, (TxPins.offers is N).IsChain fun a b => a.1 + (9 * C + stop) ≤ b.1 := by
  have htime : bitTime (uartTop C parityType) = C := Nat.min_eq_left hC'
  have hlt : (uartTop C parityType).cycle / 2 < bitTime (uartTop C parityType) := by
    rw [htime]
    show C / 2 < C
    omega
  have hframe : frame (p := uartTop C parityType) = frame8N1 C := by
    funext b
    rw [frame_eq (p := uartTop C parityType) rfl hlt b, htime, frame8N1]
  have hcells : cells (uartTop C parityType) = 9 := by
    rw [cells, if_pos rfl, dataCells, if_pos hlt]
  have hall := conveys_iff h (Nat.succ_pos 7) (show 8 < 15 by decide) hC hlt hstop
  rw [hcells, htime] at hall
  rw [← hframe]
  exact hall

end UartTx

/-- The two machines. -/
structure NiceTx (C parityType : ℕ) where
  core : Core
  tx : UartTx (uartTop C parityType)

namespace NiceTx

variable {C parityType : ℕ}

/-- The inputs of the transmitter. -/
def pins (c : NiceTx C parityType) : TxPins 8 := ⟨c.core.oDataTx, c.core.oDataValid⟩

/-- One rising clock edge with `i_data_rx` and `i_data_valid` of the core. -/
def step (c : NiceTx C parityType) (i : Byte × Bool) : NiceTx C parityType where
  core := c.core.step ⟨i.1, i.2, c.tx.oState0⟩
  tx := c.tx.step c.pins

variable (C parityType) in
/-- The registers after `n` clocks. -/
def after (is : ℕ → Byte × Bool) : ℕ → NiceTx C parityType := trace step ⟨Core.reset, UartTx.reset⟩ is

variable (C parityType) in
/-- What the core shows to the transmitter. -/
def shown (is : ℕ → Byte × Bool) (n : ℕ) : TxPins (uartTop C parityType).dataWidth :=
  (after C parityType is n).pins

variable (C parityType) in
/-- The bytes committed before clock `N`, one for each rising edge of `o_data_valid`, with the
clock of the edge. -/
def commits (is : ℕ → Byte × Bool) (N : ℕ) : List (ℕ × Byte) :=
  TxPins.offers (shown C parityType is) N

variable (C parityType) in
/-- The line `o_uart_tx` in clocks `n` to `n + N - 1`. -/
def lineFrom (is : ℕ → Byte × Bool) (n N : ℕ) : List Bool :=
  history (fun k => (after C parityType is (n + k)).tx.oUartTx) N

section Composition

variable (is : ℕ → Byte × Bool)

theorem tx_after (n : ℕ) :
    (after C parityType is n).tx = UartTx.after (shown C parityType is) n := by
  induction n with
  | zero => rfl
  | succ n ih =>
    show (after C parityType is n).tx.step _ = (UartTx.after _ n).step _
    rw [ih]
    rfl

theorem core_handshake (n : ℕ) : (after C parityType is n).core.oDataValid =
    (after C parityType is n).core.stateCount := by
  induction n with
  | zero => rfl
  | succ n ih => exact (Core.step_outputs _ ih).1

/-- What the core does to its offer in one clock. -/
theorem core_succ (n : ℕ) :
    ((after C parityType is n).tx.oState0 = true →
        (after C parityType is (n + 1)).core.oDataValid = false) ∧
      ((after C parityType is n).tx.oState0 = false →
        (after C parityType is n).core.oDataValid = true →
        (after C parityType is (n + 1)).core.oDataValid = true ∧
          (after C parityType is (n + 1)).core.oDataTx = (after C parityType is n).core.oDataTx) :=
  (Core.step_outputs ⟨(is n).1, (is n).2, (after C parityType is n).tx.oState0⟩
    (core_handshake is n)).2

/-- The core offers a byte only to a free transmitter, keeps it until the transmitter is busy, and
withdraws it then. -/
theorem handshake : UartTx.Handshake (p := uartTop C parityType) (shown C parityType is) where
  offered n hr := by
    cases n with
    | zero => rfl
    | succ n =>
      obtain ⟨hlow, hhigh⟩ : (shown C parityType is n).iDataValid = false ∧
          (shown C parityType is (n + 1)).iDataValid = true := by
        simpa [TxPins.rises] using hr
      have hfree : (after C parityType is n).tx.oState0 = false := by
        by_contra hbusy
        have hdown := (core_succ is n).1 (by simpa using hbusy)
        exact Bool.noConfusion (hdown.symm.trans hhigh)
      -- a free transmitter to which nothing is offered stays free
      rw [tx_after] at hfree
      exact UartTx.step_free hfree hlow
  held n hv hfree := by
    rw [← tx_after] at hfree
    obtain ⟨hvalid, hbyte⟩ := (core_succ is n).2 hfree hv
    exact congrArg₂ TxPins.mk hbyte (hvalid.trans hv.symm)
  released n _ hbusy _ := by
    rw [← tx_after] at hbusy
    exact (core_succ is n).1 hbusy

theorem lineFrom_eq (n N : ℕ) : lineFrom C parityType is n N =
    history (fun k => (UartTx.after (shown C parityType is) (n + k)).oUartTx) N := by
  simp only [lineFrom, tx_after]

theorem lineFrom_zero (N : ℕ) :
    lineFrom C parityType is 0 N = UartTx.line (shown C parityType is) N := by
  simp only [lineFrom_eq, Nat.zero_add, UartTx.line]

variable (C parityType) in
/-- With bit time `B`, the line shows the bytes committed, one frame for each and in order, up to
the byte in progress; and two clocks after a commit `o_state_0` is high, and stays so until the
frame and a stop level have been on the line. -/
def Faithful (B : ℕ) : Prop :=
  (∀ N, Conveys (frame8N1 B) 0 (lineFrom C parityType is 0 N)
    ((commits C parityType is N).map Prod.snd)) ∧
  ∀ n, TxPins.rises (shown C parityType is) n = true → ∀ m, n + 2 ≤ m →
    (after C parityType is m).tx.oState0 = true ∨
      ∃ g, List.replicate g true ++ frame8N1 B (shown C parityType is n).iDataTx ++ [true] <+:
        lineFrom C parityType is n (m + 1 - n)

/-- Every byte the core commits is sent in one frame, in order, and the core commits none before
the last is through. -/
theorem faithful (hC : 8 ≤ C) (hne : C / 2 ≠ 65536) :
    Faithful C parityType is (UartTx.bitTime (uartTop C parityType)) := by
  have hhand : UartTx.Handshake (shown C parityType is) := handshake is
  rcases Nat.lt_or_ge (C / 2) (UartTx.bitTime (uartTop C parityType)) with hlt | hge
  · have hframe : UartTx.frame (p := uartTop C parityType) =
        frame8N1 (UartTx.bitTime (uartTop C parityType)) :=
      funext fun b => UartTx.frame_eq (p := uartTop C parityType) rfl hlt b
    constructor
    · intro N
      obtain ⟨⟨g, hpre⟩, hdrop⟩ := UartTx.line_prefix hhand (Nat.succ_pos 7)
        (show 8 < 15 by decide) hC hlt N
      rw [lineFrom_zero, ← hframe]
      exact ⟨_, g, UartTx.map_snd_gaps (p := uartTop C parityType) N, fun _ _ => Nat.zero_le _, hpre, hdrop⟩
    · intro n hrise m hm
      rw [tx_after, lineFrom_eq, ← hframe]
      exact UartTx.busy_until_stop hhand (Nat.succ_pos 7) (show 8 < 15 by decide) hC hlt hrise
        (by omega)
  · have hbig : 65536 < (uartTop C parityType).cycle / 2 := by
      show 65536 < C / 2
      have hmin : min C 65536 ≤ C / 2 := hge
      omega
    have hphase := UartTx.hung_phase (Nat.succ_pos 7) hbig hhand
    constructor
    · intro N
      obtain ⟨hline, ⟨-, hnil⟩ | ⟨t, hone, -⟩⟩ := hphase N
      · rw [lineFrom_zero, hline, commits, hnil]
        exact ⟨[], N, rfl, fun _ _ => Nat.zero_le _, List.prefix_rfl, List.nil_prefix⟩
      · rw [lineFrom_zero, hline, commits, hone]
        refine ⟨[(N, _)], 0, rfl, fun _ _ => Nat.zero_le _, ?_, List.nil_prefix⟩
        simp only [wave_cons, List.append_assoc, List.prefix_append]
    · intro n hrise m hm
      left
      rw [tx_after]
      obtain ⟨-, ⟨-, hnil⟩ | ⟨t, -, -, hbusy, -⟩⟩ := hphase m
      · have hmem : (n, (shown C parityType is n).iDataTx) ∈
            TxPins.offers (shown C parityType is) m :=
          List.mem_map.2 ⟨n, List.mem_filter.2 ⟨List.mem_range.2 (by omega), hrise⟩, rfl⟩
        rw [hnil] at hmem
        cases hmem
      · exact hbusy

end Composition

/-- The transmitter sends well formed frames, each with a stop bit of at least one bit time,
exactly when its source offers each byte at least ten bit times after the one before. -/
theorem wellFormed_iff (C parityType : ℕ) (hC : 8 ≤ C) (hC' : C ≤ 65536)
    (is : ℕ → TxPins (uartTop C parityType).dataWidth) (h : UartTx.Handshake is) :
    (∀ N, Conveys (frame8N1 C) C (UartTx.line is N) ((TxPins.offers is N).map Prod.snd)) ↔
      ∀ N, (TxPins.offers is N).IsChain fun a b => a.1 + 10 * C ≤ b.1 := by
  rw [UartTx.conveys8N1_iff hC hC' h (show 0 < C by omega)]
  simp only [show 9 * C + C = 10 * C by omega]

/-- A request of the operation `P0` on `0x01020304`, each group of four bytes while the core waits
for it, and the read command. -/
def p0Request (n : ℕ) : Byte × Bool :=
  if n % 180 < 4 ∧ n < 541 then
    ([0x7b, 0x71, 0, 0, 1, 2, 3, 4, 0, 0, 0, 0, 0].getD (n / 180 * 4 + n % 180) 0, true)
  else (0, false)

theorem wellFormed_iff_p0Request :
    (∀ N, Conveys (frame8N1 16) 16 (UartTx.line (shown 16 0 p0Request) N)
        ((TxPins.offers (shown 16 0 p0Request) N).map Prod.snd)) ↔
      ∀ N, (TxPins.offers (shown 16 0 p0Request) N).IsChain fun a b => a.1 + 10 * 16 ≤ b.1 :=
  wellFormed_iff 16 0 (by decide) (by decide) (shown 16 0 p0Request) (handshake p0Request)

/-- The second byte of the reply is offered 157 clocks after the first. -/
theorem p0Request_rises : TxPins.rises (shown 16 0 p0Request) 542 = true ∧
    TxPins.rises (shown 16 0 p0Request) 699 = true := by
  decide +kernel

/-- With a period of 16 clocks the bytes of a reply are sent with stop bits of 13 clocks. -/
theorem not_wellFormed_p0Request :
    ¬∀ N, Conveys (frame8N1 16) 16 (lineFrom 16 0 p0Request 0 N)
      ((commits 16 0 p0Request N).map Prod.snd) := by
  intro hall
  simp only [lineFrom_zero, commits] at hall
  have hchain := (UartTx.conveys8N1_iff (by decide) (by decide) (handshake p0Request)
    (show 0 < 16 by decide)).1 hall 700
  obtain ⟨hfirst, hsecond⟩ := p0Request_rises
  have : IsTrans (ℕ × BitVec (uartTop 16 0).dataWidth) fun a b => a.1 + (9 * 16 + 16) ≤ b.1 :=
    ⟨fun _ _ _ _ _ => by omega⟩
  rw [List.isChain_iff_pairwise, TxPins.offers_succ, if_pos hsecond,
    List.pairwise_append] at hchain
  have hmem : (542, (shown 16 0 p0Request 542).iDataTx) ∈
      TxPins.offers (shown 16 0 p0Request) 699 :=
    List.mem_map.2 ⟨542, List.mem_filter.2 ⟨List.mem_range.2 (by decide), hfirst⟩, rfl⟩
  have hfar := hchain.2.2 _ hmem _ (List.mem_singleton_self _)
  exact absurd hfar (by decide)

/-! ### A period of twice the range of the counter -/

theorem faithful_p0Request :
    Faithful 868 0 p0Request (UartTx.bitTime (uartTop 868 0)) :=
  faithful p0Request (by decide) (by decide)

section Gapped

variable {a B g k : ℕ} {b : Byte}

theorem gapped_high (hk : k < a) :
    (List.replicate a true ++ UartRx.frame B b g)[k]? = some true := by
  rw [List.getElem?_append_left (by simpa using hk), List.getElem?_replicate, if_pos hk]

theorem gapped_cell {j : ℕ} (hj : j ≤ 8) (hlo : a + j * B ≤ k) (hhi : k < a + (j + 1) * B) :
    (List.replicate a true ++ UartRx.frame B b g)[k]? =
      some (UartRx.cellBit (p := uartTop 0 0) b j) := by
  rw [List.getElem?_append_right (by simp; omega), List.length_replicate]
  exact UartRx.getElem?_frame (p := uartTop 0 0) hj (by omega) (by omega)

theorem gapped_rest (hlo : a + 9 * B ≤ k) {l : Bool}
    (h : (List.replicate a true ++ UartRx.frame B b g)[k]? = some l) : l = true := by
  rw [List.getElem?_append_right (by simp; omega), List.length_replicate] at h
  have hhigh : extend true (UartRx.frame B b g) (k - a) = true :=
    UartRx.frame_high (p := uartTop 0 0) (show 9 * B ≤ k - a by omega)
  rwa [extend, List.getD_eq_getElem?_getD, h] at hhigh

end Gapped

/-- The first four request bytes in the first four clocks, which the core acknowledges. -/
def oneGroup (n : ℕ) : Byte × Bool := (0, decide (n < 4))

section OneGroup

/-- The acknowledgement is committed in clock 5. -/
theorem oneGroup_commit : UartTx.Idle (shown 131072 0 oneGroup) 5 ∧
    TxPins.rises (shown 131072 0 oneGroup) 5 = true ∧
    (shown 131072 0 oneGroup 5).iDataTx = (1 : BitVec 8) ∧
    TxPins.offers (shown 131072 0 oneGroup) 5 = [] ∧
    ∀ k < 5, (after 131072 0 oneGroup k).tx.oUartTx = true := by
  refine ⟨⟨?_, ?_⟩, by decide, by decide, by decide, by decide⟩
  · rw [← tx_after]
    exact ⟨by decide, by decide, by decide, by decide, by decide, by decide⟩
  · rintro m hm
    obtain rfl : m = 4 := by omega
    decide

theorem oneGroup_level {k : ℕ} (hlo : 5 ≤ k) (hhi : k < 720903) :
    (UartTx.waveform (p := uartTop 131072 0) 1)[k - 5]? =
      some (after 131072 0 oneGroup k).tx.oUartTx := by
  obtain ⟨hidle, hrise, hbyte, -, -⟩ := oneGroup_commit
  obtain ⟨e, rfl⟩ := Nat.exists_eq_add_of_le hlo
  rw [tx_after, Nat.add_sub_cancel_left, ← hbyte]
  exact UartTx.level_cells (handshake oneGroup) (Nat.succ_pos 7) (show 8 < 15 by decide)
    (show 8 ≤ 131072 by decide)
    (show (uartTop 131072 0).cycle / 2 ≤ UartTx.bitTime (uartTop 131072 0) by decide) hidle hrise
    (show e < 65538 + 10 * 65536 by omega)

theorem oneGroup_gap {k : ℕ} (hk : k < 65543) :
    (after 131072 0 oneGroup k).tx.oUartTx = true := by
  rcases Nat.lt_or_ge k 5 with hlt | hge
  · exact oneGroup_commit.2.2.2.2 k hlt
  · have hlevel := oneGroup_level hge (by omega)
    rw [UartTx.waveform_early _ (show k - 5 < 65538 by omega)] at hlevel
    exact (Option.some.inj hlevel).symm

/-- The line shows the acknowledgement with nine data bits, the last of them low. -/
theorem oneGroup_line {j k : ℕ} (hj : j < 10) (hlo : 65543 + j * 65536 ≤ k)
    (hhi : k < 65543 + (j + 1) * 65536) :
    (after 131072 0 oneGroup k).tx.oUartTx = decide (j = 1) := by
  have hlo5 : 5 ≤ k := by omega
  have hend : k < 720903 := by omega
  have hlevel := oneGroup_level hlo5 hend
  rw [UartTx.waveform_cell (p := uartTop 131072 0) (j := j) _ (show j < 10 from hj)
    (show 65538 + j * 65536 ≤ k - 5 by omega)
    (show k - 5 < 65538 + (j + 1) * 65536 by omega)] at hlevel
  rw [← Option.some.inj hlevel]
  interval_cases j <;> rfl

theorem oneGroup_commits {N : ℕ} (hlo : 6 ≤ N) (hhi : N ≤ 720903) :
    (commits 131072 0 oneGroup N).map Prod.snd = [1] := by
  obtain ⟨hidle, hrise, hbyte, hnil, -⟩ := oneGroup_commit
  obtain ⟨e, rfl⟩ := Nat.exists_eq_add_of_le (show 5 ≤ N by omega)
  have hone := (handshake oneGroup).offers_busy hrise (e := e) (by omega) fun k hk hke =>
    UartTx.busy_cells (handshake oneGroup) (Nat.succ_pos 7) (show 8 < 15 by decide)
      (show 8 ≤ 131072 by decide)
      (show (uartTop 131072 0).cycle / 2 ≤ UartTx.bitTime (uartTop 131072 0) by decide) hidle hrise
      hk (show k < 65538 + 10 * 65536 by omega)
  rw [commits, hone, hnil, hbyte]
  rfl

/-- With a period of 131072 clocks the ninth data bit takes the place of the stop bit, so the line
shows no frame of the committed byte, whatever the bit time. -/
theorem not_faithful_doubled : ¬∃ B, Faithful 131072 0 oneGroup B := by
  rintro ⟨B, hline, -⟩
  obtain ⟨fs, g, hwords, -, hpre, -⟩ := hline 655368
  rw [oneGroup_commits (by omega) (by omega)] at hwords
  obtain ⟨⟨a, b⟩, rfl, hb⟩ := List.map_eq_singleton_iff.1 hwords
  obtain rfl : b = 1 := hb
  have hwave : wave (frame8N1 B) [(a, 1)] ++ List.replicate g true =
      List.replicate a true ++ UartRx.frame B (1 : Byte) g := by
    simp [wave, frame8N1, UartRx.frame]
  rw [hwave] at hpre
  -- the start bit is on the line from clock 65543 = 5 + 65538 on, the acknowledgement's bits have
  -- 65536 clocks each, and the ninth data bit lasts from 655367 on
  have hlevel : ∀ k < 655368,
      (List.replicate a true ++ UartRx.frame B (1 : Byte) g)[k]? =
        some (after 131072 0 oneGroup k).tx.oUartTx := by
    intro k hk
    rw [prefix_history hpre hk, Nat.zero_add]
  have hB0 : 0 < B := by
    rcases Nat.eq_zero_or_pos B with rfl | hpos
    · have hlow : (after 131072 0 oneGroup 65543).tx.oUartTx = decide (0 = 1) :=
        oneGroup_line (by decide) (by omega) (by omega)
      have hin := hlevel 65543 (by omega)
      rw [hlow] at hin
      rcases Nat.lt_or_ge 65543 a with hgap | hrest
      · rw [gapped_high hgap] at hin
        cases hin
      · cases gapped_rest (by omega) hin
    · exact hpos
  have ha : a = 65543 := by
    rcases Nat.lt_trichotomy a 65543 with hlt | heq | hgt
    · have h0 := hlevel a (by omega)
      rw [gapped_cell (j := 0) (by decide) (by omega) (by omega), oneGroup_gap hlt] at h0
      cases h0
    · exact heq
    · have h0 := hlevel 65543 (by omega)
      rw [gapped_high hgt, oneGroup_line (j := 0) (by decide) (by omega) (by omega)] at h0
      cases h0
  subst ha
  have hB : B = 65536 := by
    rcases Nat.lt_trichotomy B 65536 with hlt | heq | hgt
    · have h1 := hlevel (65543 + B) (by omega)
      rw [gapped_cell (j := 1) (by decide) (by omega) (by omega),
        oneGroup_line (j := 0) (by decide) (by omega) (by omega)] at h1
      cases h1
    · exact heq
    · have h1 := hlevel 131079 (by omega)
      rw [gapped_cell (j := 0) (by decide) (by omega) (by omega),
        oneGroup_line (j := 1) (by decide) (by omega) (by omega)] at h1
      cases h1
  subst hB
  have h9 := gapped_rest (Nat.le_refl _) (hlevel 655367 (by omega))
  rw [oneGroup_line (j := 9) (by decide) (by omega) (by omega)] at h9
  cases h9

end OneGroup

end NiceTx

end Vcil.Rtl
