import Vcil.Rtl.Protocol
import Vcil.Rtl.UartRxRecovery
import Vcil.Rtl.UartTopService

/-!
# `uart_top` from any state

Whatever the line has done, when it has been high for some frames `uart_top` is at a stage of the
protocol, and from then on it follows the protocol.

* `Core.AtStage`: the registers at a stage; `Core.Onward`: the clocks after a byte of a request;
* `NiceTx.Free.receive`, `NiceTx.Free.receives`: one byte, and any number of them;
* `NiceTx.settles`: from any clock, without bytes, a stage is reached;
* `UartTop.follows_protocol`: between the two lines;
* `UartTop.resynchronizes`: after `Stage.resync` every exchange is answered.
-/

namespace Vcil.Rtl

open Clocked SerialLine Pulses

namespace Core

variable {s : Core} {bs : List Byte} {r : Request} {op : Op} {x y : Word} {k : ℕ}

/-- The registers at a stage of the protocol. -/
def AtStage : Stage → Core → Prop
  | .gathers bs, s => Gathers bs.1 s
  | .ready op x y, s => ∃ r, Request.Asks r op x y ∧ WorksFree r 0 s

theorem AtStage.oDataValid {st : Stage} (h : AtStage st s) : s.oDataValid = false := by
  cases st with
  | gathers bs => exact Gathers.oDataValid h
  | ready op x y =>
    obtain ⟨r, -, hworks⟩ := h
    exact hworks.oDataValid

theorem atStage_still {st : Stage} (h : AtStage st s) (busy : Bool) :
    AtStage st (s.step (still busy)) := by
  cases st with
  | gathers bs => exact gathers_still h bs.2 busy
  | ready op x y =>
    obtain ⟨r, hr, hworks⟩ := h
    exact ⟨r, hr, worksFree_still hr hworks busy⟩

/-! ### A request for no operation -/

/-- `RECV_INST`, with the bytes `bs` collected. -/
def Decoding (bs : List Byte) (s : Core) : Prop :=
  s.state = .recvInst ∧ s.stateCount = false ∧ ∃ m, Inv s m ∧ m.pending = bs

theorem Decoding.oDataValid {bs : List Byte} (h : Decoding bs s) : s.oDataValid = false := by
  obtain ⟨-, hc, m, hinv, -⟩ := h
  exact hinv.handshake.trans hc

theorem step_recvInst (i : Pins) (hs : s.state = .recvInst) (hv : s.oDataValid = s.stateCount) :
    (s.step i).state =
      if s.rxByteCnt = 12 then
        if s.custom3Sm3p0 || s.custom3Sm3p1 then .sm3Step1
        else if s.custom3Sm4ks || s.custom3Sm4ed then .sm4Step1 else .recvInst
      else .idle := by
  have hread : ¬ReadOut i s := not_readOut i (by rw [hs]; decide) (by rw [hs]; decide)
  rw [step_eq i hv]
  simp only [caseState, hs, caseRecvInst, hread, if_false]
  split_ifs <;> rfl

theorem decoding_start (h : Decoding [] s) (busy : Bool) : Gathers [] (s.step (still busy)) := by
  obtain ⟨hs, hc, m, hinv, hm⟩ := h
  have h12 : s.rxByteCnt ≠ 12 := by rw [hinv.rxByteCnt, hm]; decide
  have hsee : m.see s (still busy) = m := by
    rw [Monitor.see, if_neg (by simp [Accepts, hs]), if_neg fun hd => h12 hd.2,
      if_neg (by simp [hs])]
  obtain ⟨hcount, -⟩ := step_handshake (still busy) (by rw [hs]; decide) (by rw [hs]; decide)
    hinv.handshake
  refine ⟨?_, ?_, m, hsee ▸ inv_step (still busy) hinv, hm⟩
  · rw [step_recvInst (still busy) hs hinv.handshake, if_neg h12]
  · rw [hcount, offers_of_not_polled _ (by simp [Polled, still]), released, hc, Bool.and_false]

/-- The clocks after the last byte of a request for no operation. -/
def Rejects (r : Request) : ℕ → Core → Prop
  | 0 => Gathers r
  | 1 => Decoding r
  | 2 => Decoding []
  | _ + 3 => Gathers []

theorem rejects_still (hr : r.length = 12) (hnone : Op.decode r.code = none)
    (h : Rejects r k s) (busy : Bool) : Rejects r (k + 1) (s.step (still busy)) := by
  match k, h with
  | 0, ⟨hs, hc, m, hinv, hm⟩ =>
    have h12 : s.rxByteCnt = 12 := by rw [hinv.rxByteCnt, hm, hr]; rfl
    obtain ⟨hstate, -, hcount, -⟩ := step_idle (still busy) hs hinv.handshake
    have hsee : m.see s (still busy) = m := by simp [Monitor.see, Accepts, Decodes, hs, still]
    refine ⟨?_, ?_, m, hsee ▸ inv_step (still busy) hinv, hm⟩
    · rw [hstate, idleNext, if_neg (by simp [still]), if_pos h12]
    · rw [hcount, released, hc, Bool.and_false]
  | 1, ⟨hs, hc, m, hinv, hm⟩ =>
    have h12 : s.rxByteCnt = 12 := by rw [hinv.rxByteCnt, hm, hr]; rfl
    obtain ⟨hcode, -, -⟩ := hinv.holds.fields (hm ▸ hr)
    have hsee : m.see s (still busy) = ⟨[], some m.pending, []⟩ := by
      rw [Monitor.see, if_neg (by simp [Accepts, hs]), if_pos ⟨hs, h12⟩]
    have hno : ∀ op : Op, s.opcode ≠ op.code := fun op hop => by
      rw [hcode, hm] at hop
      rw [hop, Op.decode_code] at hnone
      cases hnone
    obtain ⟨hcount, -⟩ := step_handshake (still busy) (by rw [hs]; decide) (by rw [hs]; decide)
      hinv.handshake
    refine ⟨?_, ?_, _, hsee ▸ inv_step (still busy) hinv, rfl⟩
    · have hp0 : s.custom3Sm3p0 = false := beq_eq_false_iff_ne.2 (hno .sm3p0)
      have hp1 : s.custom3Sm3p1 = false := beq_eq_false_iff_ne.2 (hno .sm3p1)
      have hks : s.custom3Sm4ks = false := beq_eq_false_iff_ne.2 (hno .sm4ks)
      have hed : s.custom3Sm4ed = false := beq_eq_false_iff_ne.2 (hno .sm4ed)
      rw [step_recvInst (still busy) hs hinv.handshake, if_pos h12, hp0, hp1, hks, hed]
      rfl
    · rw [hcount, offers_of_not_polled _ (by simp [Polled, still]), released, hc, Bool.and_false]
  | 2, h => exact decoding_start h busy
  | k + 3, h => exact gathers_still h (Nat.succ_pos 11) busy

/-! ### The clocks after a byte of a request -/

/-- The core `k` clocks after it has got the last of `bs`, when no other byte comes. -/
def Onward (bs : List Byte) (k : ℕ) (s : Core) : Prop :=
  if bs.length < 12 then Gathers bs s
  else if (Op.decode (Request.code bs)).isSome then WorksFree bs (9 - k) s
  else Rejects bs k s

section Onward

theorem Gathers.onward (h : Gathers bs s) : Onward bs 0 s := by
  unfold Onward
  split_ifs with hlt hop
  · exact h
  · exact WorksFree.of_gathers h
  · exact h

theorem Onward.oDataValid (h : Onward bs k s) : s.oDataValid = false := by
  unfold Onward at h
  split_ifs at h with hlt hop
  · exact h.oDataValid
  · exact h.oDataValid
  · match k, h with
    | 0, h => exact Gathers.oDataValid h
    | 1, ⟨_, hc, m, hinv, _⟩ => exact hinv.handshake.trans hc
    | 2, ⟨_, hc, m, hinv, _⟩ => exact hinv.handshake.trans hc
    | k + 3, h => exact Gathers.oDataValid h

variable (hbs : bs.length ≤ 12)
include hbs

theorem onward_still (h : Onward bs k s) (busy : Bool) :
    Onward bs (k + 1) (s.step (still busy)) := by
  unfold Onward at h ⊢
  split_ifs at h ⊢ with hlt hop
  · exact gathers_still h hlt busy
  · obtain ⟨op, hop⟩ := Option.isSome_iff_exists.1 hop
    have hr : Request.Asks bs op (Request.rs1 bs) (Request.rs2 bs) := ⟨by omega, hop, rfl, rfl⟩
    exact worksFree_still hr h busy
  · exact rejects_still (by omega) (by simpa using hop) h busy

theorem Onward.atStage (h : Onward bs k s) (hk : 9 ≤ k) : AtStage (.gathered bs) s := by
  unfold Onward at h
  split_ifs at h with hlt hop
  · rw [Stage.gathered_of_lt hlt]
    exact h
  · obtain ⟨op, hop⟩ := Option.isSome_iff_exists.1 hop
    have hr : Request.Asks bs op (Request.rs1 bs) (Request.rs2 bs) := ⟨by omega, hop, rfl, rfl⟩
    rw [Nat.sub_eq_zero_of_le hk] at h
    rw [Stage.gathered_of_asks hr]
    exact ⟨bs, hr, h⟩
  · obtain ⟨j, rfl⟩ := Nat.exists_eq_add_of_le' (show 3 ≤ k by omega)
    rw [Stage.gathered, dif_neg hlt, Option.not_isSome_iff_eq_none.1 hop]
    exact h

end Onward

theorem Decoding.onward (h : Decoding bs s) (hbs : bs.length = 12) : Onward bs 1 s := by
  unfold Onward
  split_ifs with hlt hop
  · exact absurd hlt (by omega)
  · obtain ⟨hs, hc, m, hinv, hm⟩ := h
    refine ⟨⟨m, hinv, ?_⟩, ?_, hc⟩
    · rw [hs]
      exact hm
    · rw [remaining, hs]
  · exact h

/-! ### Working -/

/-- The core computes for some request. -/
theorem Computing.worksFree {m : Monitor} (h : s.Computing) (hinv : Inv s m)
    (hc : s.stateCount = false) : ∃ r op x y, Request.Asks r op x y ∧ WorksFree r 9 s := by
  obtain ⟨op, x, y, ⟨⟨r, hlast, hasks⟩, -⟩⟩ : ∃ op x y, m.Works op x y := by
    have hphase := hinv.phase
    unfold Phase at hphase
    split at hphase <;> grind [Computing, State.code]
  exact ⟨r, op, x, y, hasks, h.works_iff hinv hlast, remaining_le s, hc⟩

/-- A byte that is no command leaves the result where it is. -/
theorem worksFree_ignores (hr : r.Asks op x y) (h : WorksFree r 0 s) {b : Byte} (hpoll : b ≠ 0xff)
    (hread : b ≠ 0x00) : WorksFree r 0 (s.step (given b)) := by
  obtain ⟨hw, hn, hc⟩ := h
  obtain ⟨h1, h2⟩ := hw.state_ne
  have hnext := works_step hr hw (i := given b) fun hro => hread hro.2.1
  refine ⟨hnext.works, hnext.remaining.trans (by omega), ?_⟩
  rw [(step_handshake (given b) h1 h2 hw.handshake).1,
    offers_of_not_polled _ fun hp => hpoll hp.2.1, released, hc, Bool.and_false]

end Core

/-- The offers before a clock depend on the clocks before it. -/
theorem TxPins.offers_congr {w : ℕ} {is is' : ℕ → TxPins w} {N : ℕ}
    (heq : ∀ k < N, is' k = is k) : TxPins.offers is' N = TxPins.offers is N := by
  induction N with
  | zero => rfl
  | succ N ih =>
    have hrises : TxPins.rises is' N = TxPins.rises is N := by
      cases N with
      | zero => rw [TxPins.rises, TxPins.rises, heq 0 (Nat.lt_succ_self 0)]
      | succ N =>
        rw [TxPins.rises, TxPins.rises, heq N (by omega), heq (N + 1) (Nat.lt_succ_self _)]
    rw [TxPins.offers_succ, TxPins.offers_succ, ih fun k hk => heq k (by omega), hrises,
      heq N (Nat.lt_succ_self N)]

namespace NiceTx

open Vcil.Rtl.Core

variable {C parityType : ℕ} {is : ℕ → Byte × Bool} {P Q : Core → Prop} {cs : List Byte} {n m g : ℕ}
  {st : Stage}

theorem Free.mono (h : Free C parityType is P cs n) (hPQ : ∀ s, P s → Q s) :
    Free C parityType is Q cs n := ⟨hPQ _ h.core, h.idle, h.commits⟩

section Rules

variable (hC : 8 ≤ C)
include hC

/-- Clocks without a byte, one after the other. -/
theorem Free.count {P : ℕ → Core → Prop} (h : Free C parityType is (P 0) cs n)
    (hvalid : ∀ k s, P k s → s.oDataValid = false)
    (hstep : ∀ k s, P k s → P (k + 1) (s.step (still false))) (j : ℕ)
    (hquiet : ∀ k, n ≤ k → k < n + j → given? is k = none) :
    Free C parityType is (P j) cs (n + j) := by
  induction j with
  | zero => exact h
  | succ j ih =>
    exact (ih fun k hlo hhi => hquiet k hlo (by omega)).quiet hC (hvalid j)
      (hquiet (n + j) (by omega) (by omega)) (hstep j)

theorem Free.stay (h : Free C parityType is (AtStage st) cs n) (hnm : n ≤ m)
    (hquiet : ∀ k, n ≤ k → k < m → given? is k = none) :
    Free C parityType is (AtStage st) cs m :=
  h.wait hC (fun _ => AtStage.oDataValid) (fun _ hs => atStage_still hs false) hnm hquiet

variable (hC' : C ≤ 65536)
include hC'

/-- One byte, with the time for the answers. -/
theorem Free.receive {b : Byte} (h : Free C parityType is (AtStage st) cs n)
    (hn : given? is n = some b) (hg : (st.receive b).2.length * (9 * C + C / 2 + 5) + 2 ≤ g)
    (hquiet : ∀ k, n < k → k < n + g → given? is k = none) :
    Free C parityType is (AtStage (st.receive b).1) (cs ++ (st.receive b).2) (n + g) := by
  have hstay {t : Stage} {cs' : List Byte} {k : ℕ} (hk : n < k) (hkg : k ≤ n + g)
      (hfree : Free C parityType is (AtStage t) cs' k) :
      Free C parityType is (AtStage t) cs' (n + g) :=
    hfree.stay hC hkg fun j hlo hhi => hquiet j (by omega) hhi
  cases st with
  | gathers bs =>
    obtain ⟨bs, hlt⟩ := bs
    have hlen : (bs ++ [b]).length = bs.length + 1 := List.length_append
    simp only [Stage.receive] at hg ⊢
    split_ifs at hg ⊢ with h4
    · have hacks : Free C parityType is (Acks (bs ++ [b]) false) cs (n + 1) :=
        h.give hC (fun _ => Gathers.oDataValid) hn fun s hs => (gathers_given hs hlt b).2 h4
      simp only [List.length_singleton] at hg
      have hdone := hacks.acknowledge hC hC' (Onward (bs ++ [b]))
        (fun _ hs => (acks_busy hs).onward) (fun _ _ hs => onward_still (by omega) hs true)
        fun k hlo hhi => hquiet k (by omega) (by omega)
      exact hstay (by omega) (by omega)
        (hdone.mono fun _ hs => hs.atStage (by omega) (by omega))
    · rw [List.append_nil, Stage.gathered_of_lt (show (bs ++ [b]).length < 12 by omega)]
      exact hstay (Nat.lt_succ_self n) (by omega)
        (h.give hC (fun _ => Gathers.oDataValid) hn fun s hs => (gathers_given hs hlt b).1 h4)
  | ready op x y =>
    obtain ⟨r, hr, hworks⟩ := h.core
    have hfree : Free C parityType is (WorksFree r 0) cs n := ⟨hworks, h.idle, h.commits⟩
    have hready : ∀ s, WorksFree r 0 s → AtStage (.ready op x y) s := fun s hs => ⟨r, hr, hs⟩
    simp only [Stage.receive] at hg ⊢
    split_ifs at hg ⊢ with hpoll hread
    · subst hpoll
      simp only [List.length_singleton] at hg
      exact (hfree.poll hC hC' hr hn (by omega) hquiet).mono hready
    · subst hread
      have hlen : (op.reply x y).length = 5 := by simp [Op.reply, Words.beBytes]
      simp only [hlen] at hg
      exact hfree.read hC hC' hr hn hg hquiet
    · rw [List.append_nil]
      exact hstay (Nat.lt_succ_self n) (by omega)
        (hfree.give hC (fun _ => WorksFree.oDataValid) hn fun s hs =>
          hready _ (worksFree_ignores hr hs hpoll hread))

/-- Any number of bytes, each with that time. -/
theorem Free.receives {ps : List (Byte × ℕ)} (h : Free C parityType is (AtStage st) cs n)
    (hpaced : st.Paced (9 * C + C / 2 + 5) ps) (hshows : Shows (given? is) n ps) :
    Free C parityType is (AtStage (st.run (ps.map Prod.fst)))
      (cs ++ st.sends (ps.map Prod.fst)) (n + span ps) := by
  induction ps generalizing st cs n with
  | nil => simpa [Stage.run, Stage.sends] using h
  | cons p ps ih =>
    obtain ⟨hroom, hrest⟩ := hpaced
    obtain ⟨-, hgiven, hquiet, hlater⟩ := hshows
    have hnext := ih (h.receive hC hC' hgiven hroom hquiet) hrest hlater
    rwa [List.append_assoc, Nat.add_assoc] at hnext

/-- From any state of the core a stage is reached, if the transmitter is free. -/
theorem Free.settle (h : Free C parityType is
      (fun s => (∃ m, Inv s m) ∧ s.stateCount = false) cs n)
    (hg : 5 * (9 * C + C / 2 + 5) + 10 ≤ g)
    (hquiet : ∀ k, n ≤ k → k < n + g → given? is k = none) :
    ∃ st cs', Free C parityType is (AtStage st) cs' (n + g) := by
  obtain ⟨⟨m, hinv⟩, hc⟩ := h.core
  have hphase := hinv.phase
  have hend {t : Stage} {cs' : List Byte} {k : ℕ} (hk : n ≤ k) (hkg : k ≤ n + g)
      (hfree : Free C parityType is (AtStage t) cs' k) :
      ∃ st cs', Free C parityType is (AtStage st) cs' (n + g) :=
    ⟨t, cs', hfree.stay hC hkg fun j hlo hhi => hquiet j (by omega) hhi⟩
  have honward {bs : List Byte} {e : ℕ} (hbs : bs.length ≤ 12)
      (hat : Onward bs e (after C parityType is n).core) :
      ∃ st cs', Free C parityType is (AtStage st) cs' (n + g) := by
    have hfree : Free C parityType is (Onward bs (e + 0)) cs n := ⟨hat, h.idle, h.commits⟩
    have hdone := hfree.count (P := fun k => Onward bs (e + k)) hC (fun _ _ => Onward.oDataValid)
      (fun _ _ hs => onward_still hbs hs false) 9 fun k hlo hhi => hquiet k hlo (by omega)
    exact hend (by omega) (by omega) (hdone.mono fun _ hs => hs.atStage hbs (by omega))
  have hworks (hcomp : (after C parityType is n).core.Computing) :
      ∃ st cs', Free C parityType is (AtStage st) cs' (n + g) := by
    obtain ⟨r, op, x, y, hr, hw⟩ := hcomp.worksFree hinv hc
    have hfree : Free C parityType is (WorksFree r (9 - 0)) cs n := ⟨hw, h.idle, h.commits⟩
    have hdone := hfree.count (P := fun k => WorksFree r (9 - k)) hC
      (fun _ _ => WorksFree.oDataValid) (fun _ _ hs => worksFree_still hr hs false) 9
      fun k hlo hhi => hquiet k hlo (by omega)
    exact hend (t := .ready op x y) (by omega) (by omega) (hdone.mono fun _ hs => ⟨r, hr, hs⟩)
  cases hs : (after C parityType is n).core.state with
  | idle =>
    rw [Phase, hs] at hphase
    exact honward hphase.2 (Gathers.onward ⟨hs, hc, m, hinv, rfl⟩)
  | recvInst =>
    rw [Phase, hs] at hphase
    obtain ⟨-, h12 | h0⟩ := hphase
    · exact honward (Nat.le_of_eq h12) (Decoding.onward ⟨hs, hc, m, hinv, rfl⟩ h12)
    · have hfree : Free C parityType is (Decoding []) cs n :=
        ⟨⟨hs, hc, m, hinv, List.length_eq_zero_iff.1 h0⟩, h.idle, h.commits⟩
      have hstart : Free C parityType is (AtStage .start) cs (n + 1) :=
        hfree.quiet hC (fun _ => Decoding.oDataValid)
          (hquiet n (Nat.le_refl n) (by omega)) fun _ hs => decoding_start hs false
      exact hend (by omega) (by omega) hstart
  | txOne =>
    rw [Phase, hs] at hphase
    obtain ⟨-, hlen⟩ := hphase
    have hacks : Free C parityType is (Acks m.pending false) cs n :=
      ⟨⟨hs, hc, fun hf => absurd hf (by decide), m, hinv, rfl⟩, h.idle, h.commits⟩
    have hbs : m.pending.length ≤ 12 := by omega
    have hdone := hacks.acknowledge hC hC' (Onward m.pending)
      (fun _ hs => (acks_busy hs).onward) (fun _ _ hs => onward_still hbs hs true)
      fun k hlo hhi => hquiet k hlo (by omega)
    exact hend (by omega) (by omega) (hdone.mono fun _ hs => hs.atStage hbs (by omega))
  | txData =>
    rw [Phase, hs] at hphase
    obtain ⟨op, x, y, ⟨⟨r, hlast, hr⟩, -⟩, -, -, k, hk, hcnt, -⟩ := hphase
    have hfree : Free C parityType is (AnswersFree r k) cs n :=
      ⟨⟨⟨hs, hcnt, hk, m, hinv, hlast⟩, hc⟩, h.idle, h.commits⟩
    have hroom : (5 - k) * (9 * C + C / 2 + 5) ≤ 5 * (9 * C + C / 2 + 5) :=
      Nat.mul_le_mul_right _ (Nat.sub_le 5 k)
    exact ⟨.start, _, hfree.answerAll hC hC' hr hk (by omega) hquiet⟩
  | sm3Step1 | sm3Step2 | sm3Step3 | sm4Step1 | sm4Step2 | sm4Step3 =>
    exact hworks (by rw [Computing, hs]; decide)

variable (parityType) in
/-- From any clock on: what is being sent is sent, and then a stage is reached. -/
theorem settles (hg : 6 * (9 * C + C / 2 + 5) + 10 ≤ g)
    (hquiet : ∀ k, n ≤ k → k < n + g → given? is k = none) :
    ∃ st cs, Free C parityType is (AtStage st) cs (n + g) := by
  have hhand : UartTx.Handshake (shown C parityType is) := handshake is
  have hlt := UartTx.half_lt_bitTime parityType hC hC'
  have hdur := UartTx.duration_uartTop parityType hC hC'
  have hinv : ∀ k, ∃ m, Inv (after C parityType is k).core m := fun k => by
    induction k with
    | zero => exact ⟨_, inv_reset⟩
    | succ k ih =>
      obtain ⟨m, hm⟩ := ih
      exact ⟨_, inv_step _ hm⟩
  -- from the end of a frame on
  have hframe {t e : ℕ} (hn : n = t + e) (he : e < 9 * C + C / 2 + 4)
      (hidle : UartTx.Idle (shown C parityType is) t)
      (hrise : TxPins.rises (shown C parityType is) t = true) :
      ∃ st cs, Free C parityType is (AtStage st) cs (n + g) := by
    have hbusy : (after C parityType is (t + (9 * C + C / 2 + 3))).tx.oState0 = true := by
      rw [tx_after]
      exact UartTx.busy_at hhand (Nat.succ_pos 7) (show 8 < 15 by decide) hC hlt hidle hrise
        (by omega) (by rw [hdur]; omega)
    have hc : (after C parityType is (t + (9 * C + C / 2 + 4))).core.stateCount = false := by
      rw [← core_handshake]
      exact (core_succ is (t + (9 * C + C / 2 + 3))).1 hbusy
    have hagain := UartTx.idle_again hhand (Nat.succ_pos 7) (show 8 < 15 by decide) hC hlt hidle
      hrise
    rw [hdur] at hagain
    have hfree : Free C parityType is (fun s => (∃ m, Inv s m) ∧ s.stateCount = false) _
        (t + (9 * C + C / 2 + 4)) := ⟨⟨hinv _, hc⟩, hagain, rfl⟩
    have hdone := hfree.settle (g := n + g - (t + (9 * C + C / 2 + 4))) hC hC' (by omega)
      fun k hlo hhi => hquiet k (by omega) (by omega)
    rwa [show t + (9 * C + C / 2 + 4) + (n + g - (t + (9 * C + C / 2 + 4))) = n + g by omega]
      at hdone
  rcases UartTx.phase hhand (Nat.succ_pos 7) (show 8 < 15 by decide) hC hlt n with
    hidle | ⟨t, e, hn, -, he, hidle, hrise⟩
  · by_cases hrise : TxPins.rises (shown C parityType is) n = true
    · exact hframe (Nat.add_zero n).symm (by omega) hidle hrise
    · have hc : (after C parityType is n).core.stateCount = false := by
        rw [hidle.rises_iff] at hrise
        rw [← core_handshake]
        exact Bool.eq_false_iff.2 hrise
      have hfree : Free C parityType is (fun s => (∃ m, Inv s m) ∧ s.stateCount = false) _ n :=
        ⟨⟨hinv n, hc⟩, hidle, rfl⟩
      exact hfree.settle hC hC' (by omega) hquiet
  · rw [hdur] at he
    exact hframe hn he hidle hrise

end Rules

/-- Only the clocks before matter. -/
theorem Free.congr {is' : ℕ → Byte × Bool} (h : Free C parityType is P cs n)
    (heq : ∀ k < n, is' k = is k) : Free C parityType is' P cs n := by
  have hafter : ∀ k ≤ n, after C parityType is' k = after C parityType is k := fun k hk =>
    trace_congr fun j hj => heq j (by omega)
  have hshown : ∀ k ≤ n, shown C parityType is' k = shown C parityType is k := fun k hk =>
    congrArg pins (hafter k hk)
  refine ⟨?_, ⟨?_, fun m hm => ?_⟩, ?_⟩
  · rw [hafter n (Nat.le_refl n)]
    exact h.core
  · rw [← tx_after, hafter n (Nat.le_refl n), tx_after]
    exact h.idle.resting
  · rw [hshown m (by omega)]
    exact h.idle.before m hm
  · rw [NiceTx.commits, TxPins.offers_congr fun k hk => hshown k (Nat.le_of_lt hk)]
    exact h.commits

end NiceTx

namespace UartTop

section Lines

variable {C B : ℕ} (hC : 20 ≤ C) (hC' : C ≤ 65536) (hB : 20 * |(B : ℤ) - C| ≤ C - 16)
  (parityType : ℕ) (noise : List Bool) (high : ℕ)

/-- The line on the way in: whatever it was, then high for some time, and then bytes as frames of
eight data bits and at least two stop bits. -/
def noisyLine (B : ℕ) (noise : List Bool) (high : ℕ) (ps : List (Byte × ℕ)) : List Bool :=
  noise ++ List.replicate high true ++ ps.flatMap fun f => UartRx.frame B f.1 (2 * B + f.2)

theorem length_noisyLine (ps : List (Byte × ℕ)) : (noisyLine B noise high ps).length =
    noise.length + high + span (ps.map fun p => (p.1, 11 * B + p.2)) := by
  rw [noisyLine, List.length_append, List.length_append, List.length_replicate, length_frames]

variable (C) in
/-- What the receiver makes of it. -/
def noisyInput (B parityType : ℕ) (noise : List Bool) (high : ℕ) (ps : List (Byte × ℕ)) :
    ℕ → Byte × Bool :=
  received C parityType (extend true (noisyLine B noise high ps))

include hC hC' hB

/-- After seventy-two bit times of high level `uart_top` is at a stage, which does not depend on what
follows, and it is given what follows. -/
theorem stage_after {high : ℕ} (hhigh : 72 * C ≤ high) : ∃ st cs, ∀ ps : List (Byte × ℕ),
    NiceTx.Free C parityType (noisyInput C B parityType noise high ps) (Core.AtStage st) cs
      (noise.length + high + (9 * C + C / 2 + 8)) ∧
    Shows (NiceTx.given? (noisyInput C B parityType noise high ps))
      (noise.length + high + (9 * C + C / 2 + 8)) (ps.map fun p => (p.1, 11 * B + p.2)) ∧
    ∀ n, (noisyLine B noise high ps).length + (9 * C + C / 2 + 8) ≤ n →
      NiceTx.given? (noisyInput C B parityType noise high ps) n = none := by
  set before := noise ++ List.replicate high true with hbefore
  have hlen : before.length = noise.length + high := by simp [hbefore]
  have hline : ∀ k, noise.length ≤ k → extend true before k = true := fun k hk => by
    obtain ⟨d, rfl⟩ := Nat.exists_eq_add_of_le hk
    rw [hbefore, extend_append_right, extend_replicate]
  have hready : ∀ n, noise.length + 10 * C + 6 ≤ n → UartRx.Ready
      ((UartRx.reset : UartRx (uartTop C parityType)).after (extend true before) n) := fun n hn =>
    UartRx.ready_again (p := uartTop C parityType) (Nat.succ_pos 7) (show 8 < 16 by decide)
      (show 6 ≤ C by omega) hC' rfl UartRx.ready_reset hline hn
  have hquiet : ∀ n, noise.length + 10 * C + 6 ≤ n →
      NiceTx.given? (received C parityType (extend true before)) n = none := fun n hn => by
    rw [given_received]
    exact (hready n hn).done
  obtain ⟨st, cs, hsettled⟩ := NiceTx.settles parityType (g := high - (10 * C + 6)) (by omega) hC'
    (by omega) fun k hlo _ => hquiet k hlo
  rw [show noise.length + 10 * C + 6 + (high - (10 * C + 6)) = before.length by omega] at hsettled
  refine ⟨st, cs, fun ps => ?_⟩
  -- up to the first frame it does not matter what follows
  have hrx : ∀ n ≤ before.length, (UartRx.reset : UartRx (uartTop C parityType)).after
      (extend true (noisyLine B noise high ps)) n = UartRx.reset.after (extend true before) n :=
    fun n hn => trace_congr fun k hk => extend_append_left true (Nat.lt_of_lt_of_le hk hn)
  have hinput : ∀ n ≤ before.length, noisyInput C B parityType noise high ps n =
      received C parityType (extend true before) n := fun n hn => by
    rw [noisyInput, received, received, rx_after, rx_after, hrx n hn]
  obtain ⟨hearly, hshows, hlate⟩ := given_frames hC hC' hB parityType before ps
    (show extend true (noisyLine B noise high ps) = _ from rfl) (by
      rw [hrx _ (Nat.le_refl _)]
      exact hready _ (by omega))
  rw [hlen] at hearly hshows hlate
  refine ⟨(hsettled.congr fun k hk => hinput k (by omega)).stay (by omega) (by omega) ?_, hshows,
    fun n hn => hlate n ?_⟩
  · intro k hlo hhi
    rcases Nat.eq_or_lt_of_le hlo with rfl | hlt
    · rw [NiceTx.given?, hinput _ (Nat.le_refl _)]
      exact hquiet _ (by omega)
    · exact hearly k (by omega) hhi
  · rw [length_noisyLine] at hn
    omega

/-- Whatever the line has done, after some time of high level `uart_top` follows the protocol: there
is a stage such that, for all bytes that come at the pace of the protocol, the line out shows what
the protocol sends from that stage on, after what it has shown before. -/
theorem follows_protocol {high : ℕ} (hhigh : 72 * C ≤ high) : ∃ (st : Stage) (cs : List Byte),
    ∀ ps : List (Byte × ℕ),
      st.Paced (9 * C + C / 2 + 5) (ps.map fun p => (p.1, 11 * B + p.2)) → ∀ N,
        ∃ words, words <+: cs ++ st.sends (ps.map Prod.fst) ∧
          Conveys (frame8N1 C) (C / 2 + 4)
            (txLine C parityType (extend true (noisyLine B noise high ps)) N) words ∧
          ((noisyLine B noise high ps).length + 10 * C ≤ N →
            words = cs ++ st.sends (ps.map Prod.fst)) := by
  obtain ⟨st, cs, hstage⟩ := stage_after hC hC' hB parityType noise hhigh
  refine ⟨st, cs, fun ps hpaced N => ?_⟩
  obtain ⟨hfree, hshows, hlate⟩ := hstage ps
  have hend := hfree.receives (by omega) hC' hpaced hshows
  rw [List.map_map] at hend
  have hlen := length_noisyLine (B := B) noise high ps
  obtain ⟨words, hpre, hline, htotal⟩ := conveys_total hC' parityType (by omega)
    (fun M hM => (hend.stay (by omega) (by omega) fun k hk _ => hlate k (by omega)).commits) N
  exact ⟨words, hpre, hline, fun hN => htotal (by omega)⟩

/-- The board needs no reset.  Whatever the line has done, after some time of high level and the
bytes of `Stage.resync` every exchange is answered, in order and with nothing else. -/
theorem resynchronizes {high : ℕ} (hhigh : 72 * C ≤ high) (qs : List (Byte × ℕ))
    (hqs : qs.map Prod.fst = Stage.resync) (hread : ∀ q ∈ qs, q.1 = 0x00 → 40 * C ≤ q.2) :
    ∃ cs : List Byte, ∀ es : List Exchange, (∀ e ∈ es, 40 * C ≤ e.pause) → ∀ N,
      ∃ words, words <+: cs ++ es.flatMap Exchange.answers ∧
        Conveys (frame8N1 C) (C / 2 + 4) (txLine C parityType
          (extend true (noisyLine B noise high (qs ++ es.flatMap Exchange.sent))) N) words ∧
        ((noisyLine B noise high (qs ++ es.flatMap Exchange.sent)).length + 10 * C ≤ N →
          words = cs ++ es.flatMap Exchange.answers) := by
  obtain ⟨hlo, hhi⟩ := abs_le.1 (show |(B : ℤ) - C| ≤ (C - 16) / 20 by omega)
  obtain ⟨st, cs, hstage⟩ := stage_after hC hC' hB parityType noise hhigh
  refine ⟨cs ++ st.sends Stage.resync, fun es hpause N => ?_⟩
  obtain ⟨hfree, hshows, hlate⟩ := hstage (qs ++ es.flatMap Exchange.sent)
  rw [List.map_append, shows_append] at hshows
  have hpaced : st.Paced (9 * C + C / 2 + 5) (qs.map fun p => (p.1, 11 * B + p.2)) := by
    refine Stage.paced_of_reads (fun p hp => ?_) fun p hp h0 => ?_
    · obtain ⟨q, -, rfl⟩ := List.mem_map.1 hp
      show 9 * C + C / 2 + 5 + 2 ≤ 11 * B + q.2
      omega
    · obtain ⟨q, hq, rfl⟩ := List.mem_map.1 hp
      have hroom := hread q hq h0
      show 5 * (9 * C + C / 2 + 5) + 2 ≤ 11 * B + q.2
      omega
  have hsync := hfree.receives (by omega) hC' hpaced hshows.1
  rw [List.map_map, Function.comp_def, hqs, Stage.run_resync] at hsync
  have hstart : NiceTx.Free C parityType _ (Core.Gathers []) _ _ := hsync
  have hend := hstart.exchanges (by omega) hC' (show 9 * C + C / 2 + 6 ≤ 11 * B by omega)
    (fun e he => by have := hpause e he; omega) hshows.2
  have hatStart : NiceTx.Free C parityType _ (Core.AtStage .start) _ _ := hend
  have hlen := length_noisyLine (B := B) noise high (qs ++ es.flatMap Exchange.sent)
  rw [List.map_append, span_append] at hlen
  obtain ⟨words, hpre, hline, htotal⟩ := conveys_total hC' parityType (by omega)
    (fun M hM => (hatStart.stay (by omega) (by omega) fun k hk _ => hlate k (by omega)).commits) N
  exact ⟨words, hpre, hline, fun hN => htotal (by omega)⟩

end Lines

/-- A break of three thousand clocks, and one byte some time later. -/
theorem follows_protocol_break : ∃ (st : Stage) (cs : List Byte), ∀ N,
    ∃ words, words <+: cs ++ st.sends [0x7b] ∧
      Conveys (frame8N1 868) 438 (txLine 868 0 (extend true
        (noisyLine 826 (List.replicate 3000 false) 62500 [(0x7b, 0)])) N) words := by
  obtain ⟨st, cs, hall⟩ := follows_protocol (C := 868) (B := 826) (by decide) (by decide)
    (by decide) 0 (List.replicate 3000 false) (show 72 * 868 ≤ 62500 by decide)
  have hpaced : st.Paced (9 * 868 + 868 / 2 + 5) [((0x7b : Byte), 11 * 826 + 0)] :=
    Stage.paced_of_reads (by decide) (by decide)
  refine ⟨st, cs, fun N => ?_⟩
  obtain ⟨words, hpre, hline, -⟩ := hall [(0x7b, 0)] hpaced N
  exact ⟨words, hpre, hline⟩

/-- The same break, the bytes of `Stage.resync`, and an exchange. -/
theorem resynchronizes_break : ∃ cs : List Byte,
    Conveys (frame8N1 868) 438 (txLine 868 0 (extend true (noisyLine 826 (List.replicate 3000 false)
        62500 (Stage.resync.map (fun b => (b, if b = 0x00 then 34720 else 0)) ++ p0Exchange.sent)))
      800000) (cs ++ [1, 1, 1, 1, 0xd6, 0x68, 0x82, 0x34, 3]) := by
  obtain ⟨cs, hall⟩ := resynchronizes (C := 868) (B := 826) (by decide) (by decide)
    (by decide) 0 (List.replicate 3000 false) (show 72 * 868 ≤ 62500 by decide)
    (Stage.resync.map fun b => (b, if b = 0x00 then 34720 else 0)) (by decide) (by decide)
  obtain ⟨words, -, hline, hend⟩ := hall [p0Exchange] (by simp [p0Exchange]) 800000
  have hlen := length_noisyLine (B := 826) (List.replicate 3000 false) 62500
    (Stage.resync.map (fun b => (b, if b = 0x00 then 34720 else 0)) ++
      [p0Exchange].flatMap Exchange.sent)
  rw [List.length_replicate] at hlen
  have hanswers : [p0Exchange].flatMap Exchange.answers =
      [1, 1, 1, 1, 0xd6, 0x68, 0x82, 0x34, 3] := by decide
  rw [hend (by rw [hlen]; decide), hanswers] at hline
  exact ⟨cs, hline⟩

end UartTop

end Vcil.Rtl
