import Mathlib.Tactic.IntervalCases
import Mathlib.Tactic.Tauto
import Vcil.Rtl.NiceCore

/-!
# Runs of the coprocessor

What `nice_core` answers, on every run from reset: any bytes at any moment, any behaviour of the
transmitter.

* `Monitor` records, at the pins, the request being collected, the last complete request, and
  the bytes handed over in `TX_DATA` since;
* `Core.Inv` says, state by state, how the registers depend on that record; each state keeps it
  (`inv_step`), so every run does (`inv_after`);
* `Core.calcResult_txData`: the result depends on the last request only, and is the software
  function of `nice.h`;
* `Core.fifth_byte`: the reported cycle count is 3 for SM3 and 7 for SM4.
-/

namespace Vcil.Rtl

open Words

/-! ### Requests -/

/-- The twelve bytes of a request, `b0` first. -/
abbrev Request := List Byte

namespace Request

/-- `b0b1`. -/
def code (r : Request) : BitVec 16 := beWord 16 (r.take 2)
/-- `b4..b7`. -/
def rs1 (r : Request) : Word := beWord 32 ((r.drop 4).take 4)
/-- `b8..b11`. -/
def rs2 (r : Request) : Word := beWord 32 ((r.drop 8).take 4)

/-- The bytes that reach the request register: all but `b2` and `b3`. -/
def kept (r : Request) : List Byte := r.take 2 ++ r.drop 4

end Request

/-- What an observer at the pins of the core has seen. -/
structure Monitor where
  /-- bytes accepted in `IDLE` since the previous request was decoded -/
  pending : Request
  /-- the last complete request -/
  last : Option Request
  /-- bytes handed over in `TX_DATA` since then -/
  handed : List Byte
  deriving DecidableEq, Repr

namespace Core

/-- The core accepts the byte at its pins. -/
def Accepts (s : Core) (i : Pins) : Prop :=
  s.state = .idle ∧ i.iDataValid = true ∧ s.rxByteCnt < 12

/-- The core decodes the request it has collected. -/
def Decodes (s : Core) : Prop := s.state = .recvInst ∧ s.rxByteCnt = 12

/-- The core hands a byte to the transmitter: `o_data_valid` rises. -/
def HandsOver (s : Core) (i : Pins) : Prop :=
  s.oDataValid = false ∧ (s.step i).oDataValid = true

instance (s : Core) (i : Pins) : Decidable (s.Accepts i) := inferInstanceAs (Decidable (_ ∧ _))
instance (s : Core) : Decidable s.Decodes := inferInstanceAs (Decidable (_ ∧ _))
instance (s : Core) (i : Pins) : Decidable (s.HandsOver i) := inferInstanceAs (Decidable (_ ∧ _))

end Core

namespace Monitor

def start : Monitor := ⟨[], none, []⟩

/-- Record one clock edge. -/
def see (m : Monitor) (s : Core) (i : Pins) : Monitor :=
  if s.Accepts i then { m with pending := m.pending ++ [i.iDataRx] }
  else if s.Decodes then ⟨[], some m.pending, []⟩
  else if s.state = .txData ∧ s.HandsOver i then
    { m with handed := m.handed ++ [(s.step i).oDataTx] }
  else m

end Monitor

/-- The core together with the observer. -/
def watch : Core × Monitor → Pins → Core × Monitor := Clocked.observe Core.step Monitor.see

/-- What the observer has seen after the inputs `is`, from reset. -/
def Monitor.after (is : List Pins) : Monitor :=
  (Clocked.run watch (Core.reset, Monitor.start) is).2

/-! ### One clock edge -/

namespace Core

theorem count_eq (s n : Core) :
    count s n = { n with
      cycleCounter := if s.Counting then s.cycleCounter + 1 else n.cycleCounter } := by
  unfold count
  split_ifs <;> rfl

/-- The handshake with the transmitter before the `case` statement. -/
def offers (s : Core) (i : Pins) : Bool :=
  if Polled i s then true else if i.iState0 = true then false else s.stateCount

/-- The byte at `o_data_tx` before the `case` statement. -/
def offeredByte (s : Core) (i : Pins) : Byte :=
  if Polled i s then (if s.calcDone then 1 else 0) else s.oDataTx

theorem poll_eq (i : Pins) {s n : Core} (hs : s.oDataValid = s.stateCount)
    (hn : n.oDataTx = s.oDataTx ∧ n.oDataValid = s.oDataValid ∧ n.stateCount = s.stateCount) :
    poll i s n = { n with
      oDataTx := s.offeredByte i, oDataValid := s.offers i, stateCount := s.offers i } := by
  obtain ⟨ha, hv, hc⟩ := hn
  by_cases h : Polled i s
  · simp [poll, offers, offeredByte, h]
  · by_cases hi : i.iState0 = true
    · simp [poll, offers, offeredByte, h, hi, ha]
    · rw [poll, offers, offeredByte, if_neg h, if_neg h, if_neg h, if_neg hi, if_neg hi, ← ha,
        ← hc]
      have : n.oDataValid = n.stateCount := by rw [hv, hs, hc]
      cases n
      simp_all

theorem readCommand_eq (i : Pins) (s n : Core) :
    readCommand i s n = { n with state := if ReadOut i s then .txData else n.state } := by
  unfold readCommand
  split_ifs <;> rfl

/-- Before the `case` statement only the handshake, the counter and the state are assigned. -/
theorem step_eq (i : Pins) {s : Core} (hs : s.oDataValid = s.stateCount) :
    s.step i = caseState i s { s with
      oDataTx := s.offeredByte i
      oDataValid := s.offers i
      stateCount := s.offers i
      cycleCounter := if s.Counting then s.cycleCounter + 1 else s.cycleCounter
      state := if ReadOut i s then .txData else s.state } := by
  rw [step, poll_eq i hs (by rw [count_eq]; exact ⟨rfl, rfl, rfl⟩), count_eq, readCommand_eq]

end Core

/-! ### The request register -/

theorem Request.kept_concat {r : Request} (b : Byte) (h : r.length ≠ 2 ∧ r.length ≠ 3) :
    Request.kept (r ++ [b]) = Request.kept r ++ [b] := by
  unfold Request.kept
  rcases Nat.lt_or_ge r.length 2 with h2 | h2
  · rw [List.take_of_length_le (by simp; omega), List.take_of_length_le (by omega),
      List.drop_eq_nil_of_le (by simp; omega), List.drop_eq_nil_of_le (by omega)]
    simp
  · rw [List.take_append_of_le_length h2, List.drop_append_of_le_length (by omega),
      List.append_assoc]

theorem Request.kept_concat_skip {r : Request} (b : Byte) (h : r.length = 2 ∨ r.length = 3) :
    Request.kept (r ++ [b]) = Request.kept r := by
  unfold Request.kept
  rw [List.take_append_of_le_length (by omega), List.drop_eq_nil_of_le (by simp; omega),
    List.drop_eq_nil_of_le (by omega)]

/-- The register holds the kept bytes of the request, below the bytes of earlier ones. -/
def Core.Holds (s : Core) (r : Request) : Prop :=
  ∃ old, s.niceReqInst = beWord 80 (old ++ Request.kept r)

/-- With all twelve bytes in, nothing of the earlier requests is left in the register. -/
theorem Core.Holds.fields {s : Core} {r : Request} (h : s.Holds r) (hr : r.length = 12) :
    s.opcode = r.code ∧ s.rs1 = r.rs1 ∧ s.rs2 = r.rs2 := by
  obtain ⟨old, h⟩ := h
  match r, hr with
  | [b0, b1, b2, b3, b4, b5, b6, b7, b8, b9, b10, b11], _ =>
    have hk : old ++ Request.kept [b0, b1, b2, b3, b4, b5, b6, b7, b8, b9, b10, b11] =
        old ++ [b0, b1, b4, b5, b6, b7, b8, b9, b10, b11] := rfl
    rw [Core.opcode, Core.rs1, Core.rs2, h, hk]
    have h0 := field_beWord (w := 80) old [b0, b1] [b4, b5, b6, b7, b8, b9, b10, b11] rfl rfl
      (by simp)
    have h1 := field_beWord (w := 80) (old ++ [b0, b1]) [b4, b5, b6, b7] [b8, b9, b10, b11] rfl rfl
      (by simp)
    have h2 := field_beWord (w := 80) (old ++ [b0, b1, b4, b5, b6, b7]) [b8, b9, b10, b11] [] rfl
      rfl (by simp)
    simp only [List.append_assoc, List.cons_append, List.nil_append, List.append_nil] at h0 h1 h2
    exact ⟨h0, h1, h2⟩

/-! ### The serial S-box and the two linear maps -/

/-- `sm4_sbox_out <= {sbox_out, sm4_sbox_out[31:8]}`. -/
def shiftDown (x : Word) (b : Byte) : Word := b ++ x.extractLsb' 8 24

/-- The first `k` substituted bytes of `y`, least significant first. -/
def substituted (y : Word) (k : ℕ) : List Byte :=
  (List.range k).map fun j => sbox (y.extractLsb' (8 * j) 8)

theorem substituted_succ (y : Word) (k : ℕ) :
    substituted y (k + 1) = substituted y k ++ [sbox (y.extractLsb' (8 * k) 8)] := by
  simp [substituted, List.range_succ]

theorem shiftDown_four (x : Word) (b0 b1 b2 b3 : Byte) :
    shiftDown (shiftDown (shiftDown (shiftDown x b0) b1) b2) b3 =
      (b3.setWidth 32 <<< 24) ||| (b2.setWidth 32 <<< 16) ||| (b1.setWidth 32 <<< 8) |||
        b0.setWidth 32 := by
  apply BitVec.eq_of_getLsbD_eq
  intro i hi
  simp only [shiftDown, BitVec.getLsbD_append, BitVec.getLsbD_extractLsb', BitVec.getLsbD_or,
    BitVec.getLsbD_shiftLeft, BitVec.getLsbD_setWidth]
  grind

/-- Four clocks push every earlier byte out of the register. -/
theorem foldl_substituted (x y : Word) :
    (substituted y 4).foldl shiftDown x = Vcil.sm4Nonlinear y := by
  have hbyte (k : ℕ) : (y >>> k).setWidth 8 = y.extractLsb' k 8 := by
    apply BitVec.eq_of_getLsbD_eq
    intro i hi
    simp
  have h0 : y.setWidth 8 = y.extractLsb' 0 8 := by simpa using hbyte 0
  rw [sm4Nonlinear, hbyte, hbyte, hbyte, h0]
  exact shiftDown_four x _ _ _ _

namespace Core

theorem sboxIn_eq {s : Core} {k : ℕ} (hk : k < 4) (hs : s.sboxSel = BitVec.ofNat 3 k) :
    s.sboxIn = s.sm4Rs2.extractLsb' (8 * k) 8 := by
  unfold sboxIn
  rw [hs]
  interval_cases k <;> rfl

theorem sm4Linear_ks {s : Core} (h : s.opSsm4Ks = true) :
    s.sm4Linear = Vcil.sm4Linear s.sm4SboxOut 0 := by
  have h13 := rotl_concat (m := 19) (n := 13) (by decide) s.sm4SboxOut
  have h23 := rotl_concat (m := 9) (n := 23) (by decide) s.sm4SboxOut
  simp only [sm4Linear, h, if_true, Vcil.sm4Linear]
  rw [sm3Rotl32_eq _ (by decide), sm3Rotl32_eq _ (by decide), ← h13, ← h23]

theorem sm4Linear_ed {s : Core} (hk : s.opSsm4Ks = false) (h : s.opSsm4Ed = true) :
    s.sm4Linear = Vcil.sm4Linear s.sm4SboxOut 1 := by
  have h2 := rotl_concat (m := 30) (n := 2) (by decide) s.sm4SboxOut
  have h10 := rotl_concat (m := 22) (n := 10) (by decide) s.sm4SboxOut
  have h18 := rotl_concat (m := 14) (n := 18) (by decide) s.sm4SboxOut
  have h24 := rotl_concat (m := 8) (n := 24) (by decide) s.sm4SboxOut
  simp only [sm4Linear, hk, h, if_true, Bool.false_eq_true, if_false, Vcil.sm4Linear,
    Nat.one_ne_zero]
  rw [sm3Rotl32_eq _ (by decide), sm3Rotl32_eq _ (by decide), sm3Rotl32_eq _ (by decide),
    sm3Rotl32_eq _ (by decide), ← h2, ← h10, ← h18, ← h24]

end Core

/-! ### The invariant -/

/-- The request asks for `op` on `x` and `y`. -/
structure Request.Asks (r : Request) (op : Op) (x y : Word) : Prop where
  length : r.length = 12
  decode : Op.decode r.code = some op
  rs1 : r.rs1 = x
  rs2 : r.rs2 = y

namespace Monitor

/-- The last request asks for `op` on `x` and `y`, and no byte came in since. -/
structure Works (m : Monitor) (op : Op) (x y : Word) : Prop where
  last : ∃ r, m.last = some r ∧ r.Asks op x y
  pending : m.pending = []

/-- What was handed over is a beginning of the reply to the last request. -/
def Sound (m : Monitor) : Prop :=
  m.handed = [] ∨ ∃ r op x y, m.last = some r ∧ r.Asks op x y ∧ m.handed <+: op.reply x y

end Monitor

namespace Core

/-- Nothing is left of an earlier computation. -/
def Fresh (s : Core) : Prop := s.calcDone = false ∧ s.cycleCounter = 0

/-- The SM3 operands and flags. -/
structure Sm3 (s : Core) (op : Op) (x : Word) : Prop where
  isSm3 : op = .sm3p0 ∨ op = .sm3p1
  p0 : s.opSsm3P0 = decide (op = .sm3p0)
  p1 : s.opSsm3P1 = decide (op = .sm3p1)
  rs1 : s.sm3Rs1 = x

/-- The SM4 operands and flags. -/
structure Sm4 (s : Core) (op : Op) (x y : Word) : Prop where
  isSm4 : op = .sm4ks ∨ op = .sm4ed
  ks : s.opSsm4Ks = decide (op = .sm4ks)
  ed : s.opSsm4Ed = decide (op = .sm4ed)
  rs1 : s.sm4Rs1 = x
  rs2 : s.sm4Rs2 = y

/-- The last step: the result is there after `n` cycles. -/
def Computes (s : Core) (r : Word) (n : Byte) : Prop :=
  (s.calcDone = false ∧ s.cycleCounter + 1 = n) ∨
    (s.calcDone = true ∧ s.cycleCounter = n ∧ s.calcResult = r)

/-- What the registers hold in each state. -/
def Phase (s : Core) (m : Monitor) : Prop :=
  match s.state with
  | .idle => s.Fresh ∧ m.pending.length ≤ 12
  | .txOne => s.Fresh ∧ (m.pending.length = 4 ∨ m.pending.length = 8 ∨ m.pending.length = 12)
  | .recvInst => s.Fresh ∧ (m.pending.length = 12 ∨ m.pending.length = 0)
  | .sm3Step1 => s.Fresh ∧ ∃ op x y, m.Works op x y ∧ m.handed = [] ∧ s.Sm3 op x
  | .sm3Step2 => s.calcDone = false ∧ s.cycleCounter = 1 ∧
      ∃ op x y, m.Works op x y ∧ m.handed = [] ∧ s.Sm3 op x ∧
        s.sm3Temp1 = sm3Rotl32 x (if op = .sm3p0 then 9 else 15)
  | .sm3Step3 => ∃ op x y, m.Works op x y ∧ m.handed = [] ∧ s.Sm3 op x ∧
      s.sm3Temp1 = sm3Rotl32 x (if op = .sm3p0 then 9 else 15) ∧
      s.sm3Temp2 = sm3Rotl32 x (if op = .sm3p0 then 17 else 23) ∧
      s.Computes (op.eval x y) 3
  | .sm4Step1 => s.calcDone = false ∧ ∃ op x y, m.Works op x y ∧ m.handed = [] ∧ s.Sm4 op x y ∧
      ∃ k ≤ 4, s.sboxSel = BitVec.ofNat 3 k ∧ s.cycleCounter = BitVec.ofNat 8 k ∧
        ∃ z, s.sm4SboxOut = (substituted y k).foldl shiftDown z
  | .sm4Step2 => s.calcDone = false ∧ s.cycleCounter = 5 ∧
      ∃ op x y, m.Works op x y ∧ m.handed = [] ∧ s.Sm4 op x y ∧ s.sm4SboxOut = sm4Nonlinear y
  | .sm4Step3 => ∃ op x y, m.Works op x y ∧ m.handed = [] ∧ s.Sm4 op x y ∧
      s.sm4LinearTemp = Vcil.sm4Linear (sm4Nonlinear y) (if op = .sm4ks then 0 else 1) ∧
      s.Computes (op.eval x y) 7
  | .txData => ∃ op x y, m.Works op x y ∧ s.calcResult = op.eval x y ∧
      s.cycleCounter = op.cycles ∧ ∃ k ≤ 5, s.txByteCnt = BitVec.ofNat 3 k ∧
        m.handed = (op.reply x y).take k

/-- The invariant of every run. -/
structure Inv (s : Core) (m : Monitor) : Prop where
  handshake : s.oDataValid = s.stateCount
  txByteCnt : s.state ≠ .txData → s.txByteCnt = 0
  sboxSel : s.state ≠ .sm4Step1 → s.sboxSel = 0
  rxByteCnt : s.rxByteCnt = BitVec.ofNat 4 m.pending.length
  holds : s.Holds m.pending
  sound : m.Sound
  phase : s.Phase m

theorem inv_reset : Inv reset Monitor.start where
  handshake := rfl
  txByteCnt _ := rfl
  sboxSel _ := rfl
  rxByteCnt := rfl
  holds := ⟨[], rfl⟩
  sound := Or.inl rfl
  phase := ⟨⟨rfl, rfl⟩, Nat.zero_le _⟩

/-! ### Each state keeps the invariant -/

section Steps

variable {s : Core} {m : Monitor} (i : Pins)

theorem rxByteCnt_toNat (h : Inv s m) (hlen : m.pending.length ≤ 12) :
    s.rxByteCnt.toNat = m.pending.length := by
  rw [h.rxByteCnt, BitVec.toNat_ofNat, Nat.mod_eq_of_lt (by omega)]

/-- The next bytes go into the request register, except the third and the fourth. -/
theorem holds_concat (b : Byte) (h : s.Holds m.pending)
    (hcnt : s.rxByteCnt.toNat = m.pending.length) {t : Core}
    (ht : t.niceReqInst = if s.rxByteCnt ≠ 2 ∧ s.rxByteCnt ≠ 3
      then s.niceReqInst.extractLsb' 0 72 ++ b else s.niceReqInst) :
    t.Holds (m.pending ++ [b]) := by
  obtain ⟨old, h⟩ := h
  refine ⟨old, ?_⟩
  have h2 : s.rxByteCnt = 2 ↔ m.pending.length = 2 := by
    rw [← hcnt, ← BitVec.toNat_inj]
    rfl
  have h3 : s.rxByteCnt = 3 ↔ m.pending.length = 3 := by
    rw [← hcnt, ← BitVec.toNat_inj]
    rfl
  rw [ht, h]
  split_ifs with hk
  · rw [Request.kept_concat b ⟨mt h2.2 hk.1, mt h3.2 hk.2⟩, ← List.append_assoc]
    exact beWord_concat 72 _ b
  · rw [Request.kept_concat_skip b (by rw [← h2, ← h3]; tauto)]

theorem inv_idle (h : Inv s m) (hs : s.state = .idle) : Inv (s.step i) (m.see s i) := by
  have hstep := step_eq i h.handshake
  have hro : ¬ ReadOut i s := by simp [ReadOut, hs]
  have hco : ¬ s.Counting := by simp [Counting, hs, State.code]
  obtain ⟨hf, hlen⟩ : s.Fresh ∧ m.pending.length ≤ 12 := by simpa [Phase, hs] using h.phase
  have hcnt := rxByteCnt_toNat h hlen
  have htx := h.txByteCnt (by simp [hs])
  have hsb := h.sboxSel (by simp [hs])
  rw [if_neg hro, if_neg hco] at hstep
  simp only [caseState, hs] at hstep
  rw [hstep]
  by_cases hacc : s.Accepts i
  · have hsee : m.see s i = { m with pending := m.pending ++ [i.iDataRx] } := if_pos hacc
    have hlt : m.pending.length < 12 := by
      rw [← hcnt]
      exact hacc.2.2
    rw [hsee, caseIdle, if_pos ⟨hacc.2.1, hacc.2.2⟩, hcnt]
    refine ⟨?_, ?_, ?_, ?_, ?_, h.sound, ?_⟩
    · dsimp only
      split_ifs <;> rfl
    · intro _
      dsimp only
      split_ifs <;> exact htx
    · intro _
      dsimp only
      split_ifs <;> exact hsb
    · rw [List.length_append, List.length_singleton, BitVec.ofNat_add, ← h.rxByteCnt]
      rfl
    · apply holds_concat i.iDataRx h.holds hcnt
      dsimp only
      split_ifs <;> rfl
    · dsimp only
      by_cases h4 : (m.pending.length + 1) % 4 = 0
      · rw [if_pos h4]
        refine ⟨?_, ?_⟩
        · dsimp only [Fresh]
          split_ifs <;> exact hf
        · simp only [List.length_append, List.length_singleton]
          omega
      · rw [if_neg h4]
        refine ⟨?_, ?_⟩
        · dsimp only [Fresh]
          split_ifs <;> exact hf
        · simp only [List.length_append, List.length_singleton]
          omega
  · have hsee : m.see s i = m := by simp [Monitor.see, hacc, Decodes, hs]
    have hna : ¬ (i.iDataValid = true ∧ s.rxByteCnt < 12) := fun hv => hacc ⟨hs, hv⟩
    rw [hsee, caseIdle, if_neg hna]
    split_ifs with h12
    · refine ⟨rfl, fun _ => htx, fun _ => hsb, h.rxByteCnt, h.holds, h.sound, hf, ?_⟩
      left
      rw [← hcnt, h12]
      rfl
    · exact ⟨rfl, fun _ => htx, fun _ => hsb, h.rxByteCnt, h.holds, h.sound, hf, hlen⟩

/-- Outside `IDLE`, `RECV_INST` and `TX_DATA` there is nothing to record. -/
theorem see_other (h1 : s.state ≠ .idle) (h2 : s.state ≠ .recvInst) (h3 : s.state ≠ .txData) :
    m.see s i = m := by
  simp [Monitor.see, Accepts, Decodes, h1, h2, h3]

theorem inv_txOne (h : Inv s m) (hs : s.state = .txOne) : Inv (s.step i) (m.see s i) := by
  have hstep := step_eq i h.handshake
  have hro : ¬ ReadOut i s := by simp [ReadOut, hs]
  have hco : ¬ s.Counting := by simp [Counting, hs, State.code]
  obtain ⟨hf, hlen⟩ := (by simpa [Phase, hs] using h.phase : s.Fresh ∧ _)
  have htx := h.txByteCnt (by simp [hs])
  have hsb := h.sboxSel (by simp [hs])
  rw [if_neg hro, if_neg hco] at hstep
  simp only [caseState, hs] at hstep
  rw [hstep, see_other i (by simp [hs]) (by simp [hs]) (by simp [hs]), caseTxOne]
  split_ifs with h1 h2
  · exact ⟨rfl, fun _ => htx, fun _ => hsb, h.rxByteCnt, h.holds, h.sound, hf, hlen⟩
  · exact ⟨rfl, fun _ => htx, fun _ => hsb, h.rxByteCnt, h.holds, h.sound, hf, by omega⟩
  · exact ⟨rfl, fun _ => htx, fun _ => hsb, h.rxByteCnt, h.holds, h.sound, hf, hlen⟩

theorem exists_sm3 (h : (s.custom3Sm3p0 || s.custom3Sm3p1) = true) :
    ∃ op, s.opcode = Op.code op ∧ (op = .sm3p0 ∨ op = .sm3p1) ∧
      s.custom3Sm3p0 = decide (op = .sm3p0) ∧ s.custom3Sm3p1 = decide (op = .sm3p1) := by
  rcases Bool.or_eq_true _ _ ▸ h with hp | hp
  · have hc : s.opcode = 0x7b71 := by simpa [custom3Sm3p0] using hp
    exact ⟨.sm3p0, hc, Or.inl rfl, hp, by simp [custom3Sm3p1, hc]⟩
  · have hc : s.opcode = 0x7b72 := by simpa [custom3Sm3p1] using hp
    exact ⟨.sm3p1, hc, Or.inr rfl, by simp [custom3Sm3p0, hc], hp⟩

theorem exists_sm4 (h : (s.custom3Sm4ks || s.custom3Sm4ed) = true) :
    ∃ op, s.opcode = Op.code op ∧ (op = .sm4ks ∨ op = .sm4ed) ∧
      s.custom3Sm4ks = decide (op = .sm4ks) ∧ s.custom3Sm4ed = decide (op = .sm4ed) := by
  rcases Bool.or_eq_true _ _ ▸ h with hp | hp
  · have hc : s.opcode = 0x7b73 := by simpa [custom3Sm4ks] using hp
    exact ⟨.sm4ks, hc, Or.inl rfl, hp, by simp [custom3Sm4ed, hc]⟩
  · have hc : s.opcode = 0x7b74 := by simpa [custom3Sm4ed] using hp
    exact ⟨.sm4ed, hc, Or.inr rfl, by simp [custom3Sm4ks, hc], hp⟩

theorem inv_recvInst (h : Inv s m) (hs : s.state = .recvInst) :
    Inv (s.step i) (m.see s i) := by
  have hstep := step_eq i h.handshake
  have hro : ¬ ReadOut i s := by simp [ReadOut, hs]
  have hco : ¬ s.Counting := by simp [Counting, hs, State.code]
  have hna : ¬ s.Accepts i := by simp [Accepts, hs]
  obtain ⟨hf, hlen⟩ : s.Fresh ∧ (m.pending.length = 12 ∨ m.pending.length = 0) := by
    have := h.phase
    rwa [Phase, hs] at this
  have htx := h.txByteCnt (by simp [hs])
  have hsb := h.sboxSel (by simp [hs])
  rw [if_neg hro, if_neg hco] at hstep
  simp only [caseState, hs] at hstep
  rw [hstep]
  rcases hlen with h12 | h0
  · have hcnt : s.rxByteCnt = 12 := by rw [h.rxByteCnt, h12]; rfl
    have hsee : m.see s i = ⟨[], some m.pending, []⟩ := by
      rw [Monitor.see, if_neg hna, if_pos ⟨hs, hcnt⟩]
    obtain ⟨hop, hx, hy⟩ := h.holds.fields h12
    have hholds : ∀ {t : Core}, t.niceReqInst = s.niceReqInst → t.Holds [] := by
      intro t ht
      obtain ⟨old, ho⟩ := h.holds
      exact ⟨old ++ m.pending.kept, by rw [ht, ho]; simp [Request.kept]⟩
    have hworks : ∀ op, s.opcode = Op.code op →
        Monitor.Works ⟨[], some m.pending, []⟩ op s.rs1 s.rs2 := fun op hc =>
      ⟨⟨m.pending, rfl, h12, by rw [← hop, hc, Op.decode_code], hx.symm, hy.symm⟩, rfl⟩
    rw [hsee, caseRecvInst, if_pos hcnt]
    dsimp only
    split_ifs with h3 h4
    · obtain ⟨op, hc, hop3, hp0, hp1⟩ := exists_sm3 h3
      exact ⟨rfl, fun _ => htx, fun _ => hsb, rfl, hholds rfl, Or.inl rfl, hf,
        op, s.rs1, s.rs2, hworks op hc, rfl, hop3, hp0, hp1, rfl⟩
    · obtain ⟨op, hc, hop4, hks, hed⟩ := exists_sm4 h4
      exact ⟨rfl, fun _ => htx, fun hne => absurd rfl hne, rfl, hholds rfl, Or.inl rfl, hf.1,
        op, s.rs1, s.rs2, hworks op hc, rfl, ⟨hop4, hks, hed, rfl, rfl⟩,
        0, by omega, hsb, hf.2, s.sm4SboxOut, rfl⟩
    · exact ⟨rfl, fun _ => htx, fun _ => hsb, rfl, hholds rfl, Or.inl rfl, hf, Or.inr rfl⟩
  · have hcnt : s.rxByteCnt ≠ 12 := by rw [h.rxByteCnt, h0]; decide
    have hsee : m.see s i = m := by
      rw [Monitor.see, if_neg hna, if_neg (fun hd => hcnt hd.2), if_neg (by simp [hs])]
    rw [hsee, caseRecvInst, if_neg hcnt]
    exact ⟨rfl, fun _ => htx, fun _ => hsb, h.rxByteCnt, h.holds, h.sound, hf, by omega⟩

theorem inv_sm3Step1 (h : Inv s m) (hs : s.state = .sm3Step1) :
    Inv (s.step i) (m.see s i) := by
  have hstep := step_eq i h.handshake
  have hro : ¬ ReadOut i s := by simp [ReadOut, hs]
  obtain ⟨hf, op, x, y, hw, hh, ho⟩ : s.Fresh ∧ ∃ op x y, m.Works op x y ∧ m.handed = [] ∧
      s.Sm3 op x := by
    have := h.phase
    rwa [Phase, hs] at this
  have hco : s.Counting := by simp [Counting, hs, State.code, hf.1]
  have htx := h.txByteCnt (by simp [hs])
  have hsb := h.sboxSel (by simp [hs])
  rw [if_neg hro, if_pos hco] at hstep
  simp only [caseState, hs] at hstep
  rw [hstep, see_other i (by simp [hs]) (by simp [hs]) (by simp [hs]), caseSm3Step1]
  refine ⟨rfl, fun _ => htx, fun _ => hsb, h.rxByteCnt, h.holds, h.sound, hf.1, ?_,
    op, x, y, hw, hh, ⟨ho.isSm3, ho.p0, ho.p1, ho.rs1⟩, ?_⟩
  · dsimp only
    rw [hf.2]
    rfl
  · dsimp only
    rw [ho.p0, ho.p1, ho.rs1]
    rcases ho.isSm3 with rfl | rfl <;> rfl

theorem inv_sm3Step2 (h : Inv s m) (hs : s.state = .sm3Step2) :
    Inv (s.step i) (m.see s i) := by
  have hstep := step_eq i h.handshake
  have hro : ¬ ReadOut i s := by simp [ReadOut, hs]
  obtain ⟨hd, hc, op, x, y, hw, hh, ho, h1⟩ := (by simpa [Phase, hs] using h.phase :
    s.calcDone = false ∧ s.cycleCounter = 1 ∧ ∃ op x y, m.Works op x y ∧ m.handed = [] ∧
      s.Sm3 op x ∧ s.sm3Temp1 = sm3Rotl32 x (if op = .sm3p0 then 9 else 15))
  have hco : s.Counting := by simp [Counting, hs, State.code, hd]
  have htx := h.txByteCnt (by simp [hs])
  have hsb := h.sboxSel (by simp [hs])
  rw [if_neg hro, if_pos hco] at hstep
  simp only [caseState, hs] at hstep
  rw [hstep, see_other i (by simp [hs]) (by simp [hs]) (by simp [hs]), caseSm3Step2]
  refine ⟨rfl, fun _ => htx, fun _ => hsb, h.rxByteCnt, h.holds, h.sound,
    op, x, y, hw, hh, ⟨ho.isSm3, ho.p0, ho.p1, ho.rs1⟩, h1, ?_, Or.inl ⟨hd, ?_⟩⟩
  · dsimp only
    rw [ho.p0, ho.p1, ho.rs1]
    rcases ho.isSm3 with rfl | rfl <;> rfl
  · dsimp only
    rw [hc]
    rfl

/-- Both last steps leave the result, and a read command sends the core to `TX_DATA`. -/
theorem computes_next {r : Word} {n : Byte} (h : s.Computes r n) (hs : s.state = .sm3Step3 ∨
    s.state = .sm4Step3) :
    (if s.Counting then s.cycleCounter + 1 else s.cycleCounter) = n := by
  rcases h with ⟨hd, hc⟩ | ⟨hd, hc, -⟩
  · rw [if_pos, hc]
    rcases hs with hs | hs <;> simp [Counting, hs, State.code, hd]
  · rw [if_neg, hc]
    simp [Counting, hd]

theorem inv_sm3Step3 (h : Inv s m) (hs : s.state = .sm3Step3) :
    Inv (s.step i) (m.see s i) := by
  have hstep := step_eq i h.handshake
  obtain ⟨op, x, y, hw, hh, ho, h1, h2, hres⟩ : ∃ op x y, m.Works op x y ∧ m.handed = [] ∧
      s.Sm3 op x ∧ s.sm3Temp1 = sm3Rotl32 x (if op = .sm3p0 then 9 else 15) ∧
      s.sm3Temp2 = sm3Rotl32 x (if op = .sm3p0 then 17 else 23) ∧ s.Computes (op.eval x y) 3 := by
    have := h.phase
    rwa [Phase, hs] at this
  have hval : s.sm3Rs1 ^^^ s.sm3Temp1 ^^^ s.sm3Temp2 = op.eval x y := by
    rw [ho.rs1, h1, h2]
    rcases ho.isSm3 with rfl | rfl <;> rfl
  have hcyc : op.cycles = 3 := by rcases ho.isSm3 with rfl | rfl <;> rfl
  have htx := h.txByteCnt (by simp [hs])
  have hsb := h.sboxSel (by simp [hs])
  rw [computes_next hres (Or.inl hs)] at hstep
  simp only [caseState, hs] at hstep
  rw [hstep, see_other i (by simp [hs]) (by simp [hs]) (by simp [hs]), caseSm3Step3, hval]
  by_cases hro : ReadOut i s
  · rw [if_pos hro]
    exact ⟨rfl, fun _ => htx, fun _ => hsb, h.rxByteCnt, h.holds, h.sound,
      op, x, y, hw, rfl, hcyc.symm, 0, by omega, htx, hh⟩
  · rw [if_neg hro]
    exact ⟨rfl, fun _ => htx, fun _ => hsb, h.rxByteCnt, h.holds, h.sound,
      op, x, y, hw, hh, ⟨ho.isSm3, ho.p0, ho.p1, ho.rs1⟩, h1, h2, Or.inr ⟨rfl, rfl, rfl⟩⟩

theorem inv_sm4Step1 (h : Inv s m) (hs : s.state = .sm4Step1) :
    Inv (s.step i) (m.see s i) := by
  have hstep := step_eq i h.handshake
  have hro : ¬ ReadOut i s := by simp [ReadOut, hs]
  obtain ⟨hd, op, x, y, hw, hh, ho, k, hk, hsel, hc, z, hz⟩ : s.calcDone = false ∧ ∃ op x y,
      m.Works op x y ∧ m.handed = [] ∧ s.Sm4 op x y ∧
      ∃ k ≤ 4, s.sboxSel = BitVec.ofNat 3 k ∧ s.cycleCounter = BitVec.ofNat 8 k ∧
        ∃ z, s.sm4SboxOut = (substituted y k).foldl shiftDown z := by
    have := h.phase
    rwa [Phase, hs] at this
  have hco : s.Counting := by simp [Counting, hs, State.code, hd]
  have htx := h.txByteCnt (by simp [hs])
  rw [if_neg hro, if_pos hco] at hstep
  simp only [caseState, hs] at hstep
  rw [hstep, see_other i (by simp [hs]) (by simp [hs]) (by simp [hs]), caseSm4Step1]
  split_ifs with h4
  · obtain rfl : k = 4 := by
      have := congrArg BitVec.toNat (hsel.symm.trans h4)
      rw [BitVec.toNat_ofNat, Nat.mod_eq_of_lt (by omega)] at this
      exact this
    refine ⟨rfl, fun _ => htx, fun _ => rfl, h.rxByteCnt, h.holds, h.sound, hd, ?_,
      op, x, y, hw, hh, ⟨ho.isSm4, ho.ks, ho.ed, ho.rs1, ho.rs2⟩, ?_⟩
    · dsimp only
      rw [hc]
      rfl
    · exact hz.trans (foldl_substituted z y)
  · have hk4 : k < 4 := by
      rcases Nat.lt_or_eq_of_le hk with hlt | rfl
      · exact hlt
      · exact absurd hsel h4
    refine ⟨rfl, fun _ => htx, fun hne => absurd rfl hne, h.rxByteCnt, h.holds, h.sound, hd,
      op, x, y, hw, hh, ⟨ho.isSm4, ho.ks, ho.ed, ho.rs1, ho.rs2⟩, k + 1, by omega, ?_, ?_, z, ?_⟩
    · dsimp only
      rw [hsel, BitVec.ofNat_add]
      rfl
    · dsimp only
      rw [hc, BitVec.ofNat_add]
      rfl
    · rw [substituted_succ, List.foldl_append, ← hz, ← ho.rs2, ← sboxIn_eq hk4 hsel]
      rfl

theorem inv_sm4Step2 (h : Inv s m) (hs : s.state = .sm4Step2) :
    Inv (s.step i) (m.see s i) := by
  have hstep := step_eq i h.handshake
  have hro : ¬ ReadOut i s := by simp [ReadOut, hs]
  obtain ⟨hd, hc, op, x, y, hw, hh, ho, hb⟩ : s.calcDone = false ∧ s.cycleCounter = 5 ∧
      ∃ op x y, m.Works op x y ∧ m.handed = [] ∧ s.Sm4 op x y ∧
        s.sm4SboxOut = sm4Nonlinear y := by
    have := h.phase
    rwa [Phase, hs] at this
  have hco : s.Counting := by simp [Counting, hs, State.code, hd]
  have htx := h.txByteCnt (by simp [hs])
  have hsb := h.sboxSel (by simp [hs])
  have hlin : s.sm4Linear = Vcil.sm4Linear (sm4Nonlinear y) (if op = .sm4ks then 0 else 1) := by
    have hks := ho.ks
    have hed := ho.ed
    rcases ho.isSm4 with rfl | rfl
    · rw [sm4Linear_ks hks, hb]
      rfl
    · rw [sm4Linear_ed hks hed, hb]
      rfl
  rw [if_neg hro, if_pos hco] at hstep
  simp only [caseState, hs] at hstep
  rw [hstep, see_other i (by simp [hs]) (by simp [hs]) (by simp [hs]), caseSm4Step2]
  refine ⟨rfl, fun _ => htx, fun _ => hsb, h.rxByteCnt, h.holds, h.sound,
    op, x, y, hw, hh, ⟨ho.isSm4, ho.ks, ho.ed, ho.rs1, ho.rs2⟩, hlin, Or.inl ⟨hd, ?_⟩⟩
  dsimp only
  rw [hc]
  rfl

theorem inv_sm4Step3 (h : Inv s m) (hs : s.state = .sm4Step3) :
    Inv (s.step i) (m.see s i) := by
  have hstep := step_eq i h.handshake
  obtain ⟨op, x, y, hw, hh, ho, hl, hres⟩ : ∃ op x y, m.Works op x y ∧ m.handed = [] ∧
      s.Sm4 op x y ∧
      s.sm4LinearTemp = Vcil.sm4Linear (sm4Nonlinear y) (if op = .sm4ks then 0 else 1) ∧
      s.Computes (op.eval x y) 7 := by
    have := h.phase
    rwa [Phase, hs] at this
  have hval : s.sm4LinearTemp ^^^ s.sm4Rs1 = op.eval x y := by
    rw [ho.rs1, hl, BitVec.xor_comm]
    rcases ho.isSm4 with rfl | rfl <;> rfl
  have hcyc : op.cycles = 7 := by rcases ho.isSm4 with rfl | rfl <;> rfl
  have htx := h.txByteCnt (by simp [hs])
  have hsb := h.sboxSel (by simp [hs])
  rw [computes_next hres (Or.inr hs)] at hstep
  simp only [caseState, hs] at hstep
  rw [hstep, see_other i (by simp [hs]) (by simp [hs]) (by simp [hs]), caseSm4Step3, hval]
  by_cases hro : ReadOut i s
  · rw [if_pos hro]
    exact ⟨rfl, fun _ => htx, fun _ => hsb, h.rxByteCnt, h.holds, h.sound,
      op, x, y, hw, rfl, hcyc.symm, 0, by omega, htx, hh⟩
  · rw [if_neg hro]
    exact ⟨rfl, fun _ => htx, fun _ => hsb, h.rxByteCnt, h.holds, h.sound,
      op, x, y, hw, hh, ⟨ho.isSm4, ho.ks, ho.ed, ho.rs1, ho.rs2⟩, hl, Or.inr ⟨rfl, rfl, rfl⟩⟩

theorem txByte_eq {op : Op} {x y : Word} {k : ℕ} (hk : k < 5)
    (hcnt : s.txByteCnt = BitVec.ofNat 3 k) (hr : s.calcResult = op.eval x y)
    (hc : s.cycleCounter = op.cycles) (n : Core) :
    (op.reply x y).take k ++ [s.txByte n] = (op.reply x y).take (k + 1) := by
  have hreply : op.reply x y = [s.calcResult.extractLsb' 24 8, s.calcResult.extractLsb' 16 8,
      s.calcResult.extractLsb' 8 8, s.calcResult.extractLsb' 0 8, s.cycleCounter] := by
    rw [hr, hc]
    rfl
  rw [hreply, txByte, hcnt]
  interval_cases k <;> rfl

theorem inv_txData (h : Inv s m) (hs : s.state = .txData) : Inv (s.step i) (m.see s i) := by
  have hstep := step_eq i h.handshake
  have hro : ¬ ReadOut i s := by simp [ReadOut, hs]
  have hco : ¬ s.Counting := by simp [Counting, hs, State.code]
  obtain ⟨op, x, y, hw, hr, hc, k, hk, hcnt, hh⟩ : ∃ op x y, m.Works op x y ∧
      s.calcResult = op.eval x y ∧ s.cycleCounter = op.cycles ∧ ∃ k ≤ 5,
      s.txByteCnt = BitVec.ofNat 3 k ∧ m.handed = (op.reply x y).take k := by
    have := h.phase
    rwa [Phase, hs] at this
  have hsb := h.sboxSel (by simp [hs])
  have hna : ¬ s.Accepts i := by simp [Accepts, hs]
  have hnd : ¬ s.Decodes := by simp [Decodes, hs]
  rw [if_neg hro, if_neg hco] at hstep
  simp only [caseState, hs, caseTxData] at hstep
  -- without a rising `o_data_valid` the observer records nothing
  have hquiet (hv : ¬ (s.oDataValid = false ∧ (s.step i).oDataValid = true)) : m.see s i = m := by
    rw [Monitor.see, if_neg hna, if_neg hnd, if_neg (fun hh => hv hh.2)]
  by_cases hfree : i.iState0 = false ∧ s.stateCount = false
  · rw [if_pos hfree] at hstep
    by_cases h5 : s.txByteCnt = 5
    · rw [if_pos h5] at hstep
      rw [hquiet (by rw [hstep]; simp), hstep]
      have hoff : s.offers i = false := by simp [offers, Polled, hs, hfree]
      refine ⟨hoff.symm, fun _ => rfl, fun _ => hsb, h.rxByteCnt, h.holds, h.sound,
        ⟨rfl, rfl⟩, ?_⟩
      rw [hw.pending]
      exact Nat.zero_le _
    · rw [if_neg h5] at hstep
      have hk5 : k < 5 := by
        rcases Nat.lt_or_eq_of_le hk with hlt | rfl
        · exact hlt
        · exact absurd hcnt h5
      have hover : s.HandsOver i := ⟨h.handshake.trans hfree.2, by rw [hstep]⟩
      have hsee : m.see s i = { m with handed := m.handed ++ [(s.step i).oDataTx] } := by
        rw [Monitor.see, if_neg hna, if_neg hnd, if_pos ⟨hs, hover⟩]
      have hbyte := txByte_eq hk5 hcnt hr hc
      rw [hsee, hstep, hh]
      dsimp only
      rw [hbyte]
      refine ⟨rfl, fun hne => absurd rfl hne, fun _ => hsb, h.rxByteCnt, h.holds, Or.inr ?_,
        op, x, y, ⟨hw.last, hw.pending⟩, hr, hc, k + 1, by omega, ?_, rfl⟩
      · obtain ⟨r, hlast, hasks⟩ := hw.last
        exact ⟨r, op, x, y, hlast, hasks, List.take_prefix _ _⟩
      · rw [hcnt, BitVec.ofNat_add]
        rfl
  · rw [if_neg hfree] at hstep
    by_cases hbusy : i.iState0 = true
    · rw [if_pos hbusy] at hstep
      rw [hquiet (by rw [hstep]; simp), hstep]
      exact ⟨rfl, fun hne => absurd rfl hne, fun _ => hsb, h.rxByteCnt, h.holds, h.sound,
        op, x, y, hw, hr, hc, k, hk, hcnt, hh⟩
    · rw [if_neg hbusy] at hstep
      have hsc : s.oDataValid = true := by
        rw [h.handshake]
        by_contra hne
        exact hfree ⟨by simpa using hbusy, by simpa using hne⟩
      rw [hquiet (by simp [hsc]), hstep]
      exact ⟨rfl, fun hne => absurd rfl hne, fun _ => hsb, h.rxByteCnt, h.holds, h.sound,
        op, x, y, hw, hr, hc, k, hk, hcnt, hh⟩

theorem inv_step (h : Inv s m) : Inv (s.step i) (m.see s i) := by
  cases hs : s.state with
  | idle => exact inv_idle i h hs
  | recvInst => exact inv_recvInst i h hs
  | sm3Step1 => exact inv_sm3Step1 i h hs
  | sm3Step2 => exact inv_sm3Step2 i h hs
  | sm3Step3 => exact inv_sm3Step3 i h hs
  | sm4Step1 => exact inv_sm4Step1 i h hs
  | sm4Step2 => exact inv_sm4Step2 i h hs
  | sm4Step3 => exact inv_sm4Step3 i h hs
  | txData => exact inv_txData i h hs
  | txOne => exact inv_txOne i h hs

end Steps

/-- The invariant holds after every run from reset. -/
theorem inv_after (is : List Pins) : Inv (after is) (Monitor.after is) := by
  have h := @Clocked.run_induction _ _ watch (fun p => Inv p.1 p.2) (reset, Monitor.start)
    inv_reset (fun p i hp => inv_step i hp) is
  rw [watch, Clocked.run_observe_fst] at h
  exact h

end Core

/-! ### Main results -/

/-- The last complete request determines the result the core sends: opcode, operands and nothing
else. -/
theorem Core.calcResult_txData (is : List Pins) (hs : (Core.after is).state = .txData) :
    ∃ r : Request, (Monitor.after is).last = some r ∧ r.length = 12 ∧
      ((r.code = 0x7b71 ∧
          (Core.after is).calcResult = r.rs1 ^^^ r.rs1.rotateLeft 9 ^^^ r.rs1.rotateLeft 17) ∨
        (r.code = 0x7b72 ∧
          (Core.after is).calcResult = r.rs1 ^^^ r.rs1.rotateLeft 15 ^^^ r.rs1.rotateLeft 23) ∨
        (r.code = 0x7b73 ∧
          (Core.after is).calcResult = r.rs1 ^^^ Vcil.sm4Linear (sm4Nonlinear r.rs2) 0) ∨
        (r.code = 0x7b74 ∧
          (Core.after is).calcResult = r.rs1 ^^^ Vcil.sm4Linear (sm4Nonlinear r.rs2) 1)) ∧
      (Monitor.after is).handed.take 4 <+: beBytes 4 (Core.after is).calcResult := by
  have h := Core.inv_after is
  obtain ⟨op, x, y, ⟨⟨r, hlast, hasks⟩, -⟩, hr, -, k, -, -, hh⟩ : ∃ op x y,
      (Monitor.after is).Works op x y ∧ (Core.after is).calcResult = op.eval x y ∧
      (Core.after is).cycleCounter = op.cycles ∧ ∃ k ≤ 5,
      (Core.after is).txByteCnt = BitVec.ofNat 3 k ∧
      (Monitor.after is).handed = (op.reply x y).take k := by
    have := h.phase
    rwa [Core.Phase, hs] at this
  have hcode := Op.code_of_decode hasks.decode
  obtain ⟨hlen, -, rfl, rfl⟩ := hasks
  refine ⟨r, hlast, hlen, ?_, ?_⟩
  · rw [hr]
    cases op
    · exact Or.inl ⟨hcode, custom3Sm3p0_eq _⟩
    · exact Or.inr (Or.inl ⟨hcode, custom3Sm3p1_eq _⟩)
    · exact Or.inr (Or.inr (Or.inl ⟨hcode, rfl⟩))
    · exact Or.inr (Or.inr (Or.inr ⟨hcode, rfl⟩))
  · have hpre : (op.reply r.rs1 r.rs2).take 4 = beBytes 4 (op.eval r.rs1 r.rs2) :=
      List.take_left' (length_beBytes 4 _)
    rw [hh, hr, List.take_take, Nat.min_comm, ← List.take_take, hpre]
    exact List.take_prefix k _

/-- Twelve request bytes, each group acknowledged by one clock of `i_state_0`. -/
def feed (r : Request) : List Pins :=
  let send (bs : List Byte) : List Pins :=
    bs.map (fun b => ⟨b, true, false⟩) ++ [⟨0, false, true⟩]
  send (r.take 4) ++ send ((r.drop 4).take 4) ++ send (r.drop 8)

/-- A P0 request on `0x12345678`, computed and read out. -/
def p0Session : List Pins :=
  feed [0x7b, 0x71, 0, 0, 0x12, 0x34, 0x56, 0x78, 0, 0, 0, 0] ++
    List.replicate 5 ⟨0, false, false⟩ ++ [⟨0, false, false⟩, ⟨0x00, true, false⟩]

theorem Core.calcResult_txData_p0Session :
    ∃ r : Request, (Monitor.after p0Session).last = some r ∧ r.length = 12 ∧
      ((r.code = 0x7b71 ∧ (Core.after p0Session).calcResult =
          r.rs1 ^^^ r.rs1.rotateLeft 9 ^^^ r.rs1.rotateLeft 17) ∨
        (r.code = 0x7b72 ∧ (Core.after p0Session).calcResult =
          r.rs1 ^^^ r.rs1.rotateLeft 15 ^^^ r.rs1.rotateLeft 23) ∨
        (r.code = 0x7b73 ∧ (Core.after p0Session).calcResult =
          r.rs1 ^^^ Vcil.sm4Linear (sm4Nonlinear r.rs2) 0) ∨
        (r.code = 0x7b74 ∧ (Core.after p0Session).calcResult =
          r.rs1 ^^^ Vcil.sm4Linear (sm4Nonlinear r.rs2) 1)) ∧
      (Monitor.after p0Session).handed.take 4 <+: beBytes 4 (Core.after p0Session).calcResult :=
  Core.calcResult_txData p0Session (by decide)

/-- The fifth reply byte is the number of cycles of the last request's operation. -/
theorem Core.fifth_byte (is : List Pins) (b : Byte) (hb : (Monitor.after is).handed[4]? = some b) :
    ∃ r : Request, (Monitor.after is).last = some r ∧
      (((r.code = 0x7b71 ∨ r.code = 0x7b72) ∧ b = 3) ∨
        ((r.code = 0x7b73 ∨ r.code = 0x7b74) ∧ b = 7)) := by
  rcases (Core.inv_after is).sound with hnil | ⟨r, op, x, y, hlast, hasks, hpre⟩
  · rw [hnil] at hb
    simp at hb
  · obtain ⟨hlt, -⟩ := List.getElem?_eq_some_iff.1 hb
    obtain ⟨t, ht⟩ := hpre
    have hfive : (op.reply x y)[4]? = some b := by
      rw [← ht, List.getElem?_append_left hlt]
      exact hb
    have hb : b = op.cycles := (Option.some.inj hfive).symm
    have hcode := Op.code_of_decode hasks.decode
    refine ⟨r, hlast, ?_⟩
    cases op
    · exact Or.inl ⟨Or.inl hcode, hb⟩
    · exact Or.inl ⟨Or.inr hcode, hb⟩
    · exact Or.inr ⟨Or.inl hcode, hb⟩
    · exact Or.inr ⟨Or.inr hcode, hb⟩

/-- The session continued until all five bytes are handed over. -/
def p0Reply : List Pins :=
  p0Session ++ (List.replicate 5 [⟨0, false, false⟩, ⟨0, false, true⟩]).flatten

theorem Core.fifth_byte_p0Reply :
    ∃ r : Request, (Monitor.after p0Reply).last = some r ∧
      (((r.code = 0x7b71 ∨ r.code = 0x7b72) ∧ (3 : Byte) = 3) ∨
        ((r.code = 0x7b73 ∨ r.code = 0x7b74) ∧ (3 : Byte) = 7)) :=
  Core.fifth_byte p0Reply 3 (by decide)

end Vcil.Rtl
