import Vcil.Rtl.NiceCoreSteps

/-!
# One request served

The way of a request through `nice_core`, as its registers show it: the bytes are gathered in
groups (`Gathers`), each group is acknowledged (`Acks`), the core works (`Works`) and can be polled
meanwhile, the reply is sent (`Answers`), and the core is back where it began (`AtRest`).

* `gathers_still`, `gathers_given`, `acks_free`, `acks_busy`, `works_step`, `answersFree_free`,
  `answersOffered_busy`: what one clock makes of each of these, for the pins that occur there;
* `remaining`: the clocks to the result, which every clock brings nearer.
-/

namespace Vcil.Rtl.Core

/-- The pins in a clock without a byte, with the transmitter free or busy. -/
def still (busy : Bool) : Pins := ⟨0, false, busy⟩

/-- The pins in a clock that delivers a byte, with the transmitter free. -/
def given (b : Byte) : Pins := ⟨b, true, false⟩

/-- `IDLE`, with nothing left of an earlier request. -/
def AtRest (s : Core) : Prop :=
  s.state = .idle ∧ s.rxByteCnt = 0 ∧ s.txByteCnt = 0 ∧ s.cycleCounter = 0 ∧ s.calcDone = false

/-- `IDLE`, with the bytes `bs` collected. -/
def Gathers (bs : List Byte) (s : Core) : Prop :=
  s.state = .idle ∧ s.stateCount = false ∧ ∃ m, Inv s m ∧ m.pending = bs

/-- `TX_ONE` after the bytes `bs`; the acknowledgement may be offered already. -/
def Acks (bs : List Byte) (offered : Bool) (s : Core) : Prop :=
  s.state = .txOne ∧ s.stateCount = offered ∧ (offered = true → s.oDataTx = 1) ∧
    ∃ m, Inv s m ∧ m.pending = bs

/-- The core has got the request `r` and is on its way to the result, or there. -/
def Works (r : Request) (s : Core) : Prop :=
  ∃ m, Inv s m ∧
    match s.state with
    | .idle | .recvInst => m.pending = r
    | .txData | .txOne => False
    | _ => m.last = some r

/-- The core has offered `k` bytes of the reply to `r`. -/
def Answers (r : Request) (k : ℕ) (s : Core) : Prop :=
  s.state = .txData ∧ s.txByteCnt = BitVec.ofNat 3 k ∧ k ≤ 5 ∧ ∃ m, Inv s m ∧ m.last = some r

/-- A bound for the clocks to the result. -/
def remaining (s : Core) : ℕ :=
  match s.state with
  | .idle => 9
  | .recvInst => 8
  | .sm3Step1 => 3
  | .sm3Step2 => 2
  | .sm3Step3 => if s.calcDone then 0 else 1
  | .sm4Step1 => 7 - s.sboxSel.toNat
  | .sm4Step2 => 2
  | .sm4Step3 => if s.calcDone then 0 else 1
  | .txData => 0
  | .txOne => 0

variable {s : Core} {bs : List Byte} {r : Request}

/-! ### Gathering and acknowledging -/

theorem Gathers.atRest (h : Gathers [] s) : s.AtRest := by
  obtain ⟨hs, -, m, hinv, hm⟩ := h
  have hphase := hinv.phase
  rw [Phase, hs] at hphase
  refine ⟨hs, ?_, hinv.txByteCnt (by rw [hs]; decide), hphase.1.2, hphase.1.1⟩
  rw [hinv.rxByteCnt, hm]
  rfl

theorem Gathers.oDataValid (h : Gathers bs s) : s.oDataValid = false := by
  obtain ⟨-, hc, m, hinv, -⟩ := h
  exact hinv.handshake.trans hc

theorem Acks.oDataValid {offered : Bool} (h : Acks bs offered s) : s.oDataValid = offered := by
  obtain ⟨-, hc, -, m, hinv, -⟩ := h
  exact hinv.handshake.trans hc

theorem Gathers.rxByteCnt (h : Gathers bs s) (hbs : bs.length < 12) :
    s.rxByteCnt.toNat = bs.length ∧ s.rxByteCnt < 12 ∧ s.rxByteCnt ≠ 12 := by
  obtain ⟨-, -, m, hinv, rfl⟩ := h
  have hcnt := rxByteCnt_toNat hinv (Nat.le_of_lt hbs)
  have hlt : s.rxByteCnt < 12 := by
    rw [BitVec.lt_def, hcnt]
    exact hbs
  exact ⟨hcnt, hlt, fun h12 => absurd (h12 ▸ hlt) (by decide)⟩

theorem gathers_still (h : Gathers bs s) (hbs : bs.length < 12) (busy : Bool) :
    Gathers bs (s.step (still busy)) := by
  obtain ⟨-, -, hne⟩ := h.rxByteCnt hbs
  obtain ⟨hs, hc, m, hinv, hm⟩ := h
  obtain ⟨hstate, -, hcount, -⟩ := step_idle (still busy) hs hinv.handshake
  have hsee : m.see s (still busy) = m := by simp [Monitor.see, Accepts, Decodes, hs, still]
  refine ⟨?_, ?_, m, hsee ▸ inv_step (still busy) hinv, hm⟩
  · rw [hstate, idleNext, if_neg (by simp [still]), if_neg hne]
  · rw [hcount, released, hc, Bool.and_false]

/-- A byte more; the last one of a group is to be acknowledged. -/
theorem gathers_given (h : Gathers bs s) (hbs : bs.length < 12) (b : Byte) :
    ((bs.length + 1) % 4 ≠ 0 → Gathers (bs ++ [b]) (s.step (given b))) ∧
      ((bs.length + 1) % 4 = 0 → Acks (bs ++ [b]) false (s.step (given b))) := by
  obtain ⟨hcnt, hlt, -⟩ := h.rxByteCnt hbs
  obtain ⟨hs, hc, m, hinv, rfl⟩ := h
  obtain ⟨hstate, -, hcount, -⟩ := step_idle (given b) hs hinv.handshake
  have hacc : s.Accepts (given b) := ⟨hs, rfl, hlt⟩
  have hsee : m.see s (given b) = { m with pending := m.pending ++ [b] } := if_pos hacc
  have hinv' := hsee ▸ inv_step (given b) hinv
  have hoff : (s.step (given b)).stateCount = false := by
    rw [hcount, released, hc, Bool.and_false]
  rw [idleNext, if_pos ⟨rfl, hlt⟩, hcnt] at hstate
  constructor
  · intro h4
    rw [if_neg h4] at hstate
    exact ⟨hstate, hoff, _, hinv', rfl⟩
  · intro h4
    rw [if_pos h4] at hstate
    exact ⟨hstate, hoff, fun hf => absurd hf (by decide), _, hinv', rfl⟩

/-- The acknowledgement is offered, and stays so until the transmitter takes it. -/
theorem acks_free {offered : Bool} (h : Acks bs offered s) :
    Acks bs true (s.step (still false)) := by
  obtain ⟨hs, hc, hbyte, m, hinv, hm⟩ := h
  obtain ⟨hstate, -, hcount, -⟩ := step_txOne (still false) hs hinv.handshake
  have hsee : m.see s (still false) = m :=
    see_other _ (by rw [hs]; decide) (by rw [hs]; decide) (by rw [hs]; decide)
  refine ⟨hstate, hcount, fun _ => ?_, m, hsee ▸ inv_step (still false) hinv, hm⟩
  rw [step_txOne_byte (still false) hs hinv.handshake, hc]
  cases offered with
  | false => rfl
  | true => exact hbyte rfl

theorem acks_busy (h : Acks bs true s) : Gathers bs (s.step (still true)) := by
  obtain ⟨hs, -, -, m, hinv, hm⟩ := h
  obtain ⟨hstate, -, hcount, -⟩ := step_txOne (still true) hs hinv.handshake
  have hsee : m.see s (still true) = m :=
    see_other _ (by rw [hs]; decide) (by rw [hs]; decide) (by rw [hs]; decide)
  exact ⟨hstate, hcount, m, hsee ▸ inv_step (still true) hinv, hm⟩

/-! ### Working -/

section Working

variable {op : Op} {x y : Word}

theorem Gathers.works (h : Gathers r s) : Works r s := by
  obtain ⟨hs, -, m, hinv, hm⟩ := h
  refine ⟨m, hinv, ?_⟩
  rw [hs]
  exact hm

theorem Works.state_ne (h : Works r s) : s.state ≠ .txOne ∧ s.state ≠ .txData := by
  obtain ⟨m, -, hm⟩ := h
  refine ⟨fun hs => ?_, fun hs => ?_⟩ <;> rw [hs] at hm <;> exact hm

theorem remaining_le (s : Core) : s.remaining ≤ 9 := by
  unfold remaining
  split <;> first | omega | (split_ifs <;> omega)

/-- The result is there when nothing remains to be done. -/
theorem Works.calcDone_iff (h : Works r s) : s.calcDone = true ↔ s.remaining = 0 := by
  obtain ⟨htx1, htx2⟩ := h.state_ne
  obtain ⟨m, hinv, -⟩ := h
  have hphase := hinv.phase
  cases hs : s.state with
  | txOne => exact absurd hs htx1
  | txData => exact absurd hs htx2
  | idle | recvInst | sm3Step1 => simp_all [Phase, Fresh, remaining]
  | sm3Step2 | sm4Step2 => simp_all [Phase, remaining]
  | sm3Step3 | sm4Step3 => simp [remaining, hs]
  | sm4Step1 =>
    rw [Phase, hs] at hphase
    obtain ⟨hdone, op, x, y, -, -, -, k, hk, hsel, -⟩ := hphase
    have hval : s.sboxSel.toNat = k := by
      rw [hsel, BitVec.toNat_ofNat]
      omega
    rw [remaining, hs, hdone, hval]
    constructor
    · intro hf
      cases hf
    · intro h0
      simp only at h0
      omega

/-- One clock nearer to the result. -/
structure Nearer (r : Request) (s s' : Core) : Prop where
  works : Works r s'
  remaining : s'.remaining ≤ s.remaining - 1

theorem works_idle {i : Pins} (hr : r.length = 12) (h : Works r s) (hs : s.state = .idle) :
    Nearer r s (s.step i) := by
  obtain ⟨m, hinv, hm⟩ := h
  rw [hs] at hm
  have hlen : m.pending.length = 12 := hm ▸ hr
  have h12 : s.rxByteCnt = 12 := by rw [hinv.rxByteCnt, hlen]; rfl
  have hlt : ¬s.rxByteCnt < 12 := by rw [h12]; decide
  obtain ⟨hstate, -⟩ := step_idle i hs hinv.handshake
  rw [idleNext, if_neg fun hacc => hlt hacc.2, if_pos h12] at hstate
  have hsee : m.see s i = m := by
    rw [Monitor.see, if_neg fun hacc => hlt hacc.2.2, if_neg (by simp [Decodes, hs]),
      if_neg (by simp [hs])]
  refine ⟨⟨m, hsee ▸ inv_step i hinv, ?_⟩, ?_⟩
  · rw [hstate]
    exact hm
  · rw [Core.remaining, Core.remaining, hstate, hs]
    exact Nat.le_refl 8

theorem works_recvInst {i : Pins} {op : Op} {x y : Word} (hr : r.Asks op x y) (h : Works r s)
    (hs : s.state = .recvInst) : Nearer r s (s.step i) := by
  obtain ⟨m, hinv, hm⟩ := h
  rw [hs] at hm
  have hlen : m.pending.length = 12 := hm ▸ hr.length
  have h12 : s.rxByteCnt = 12 := by rw [hinv.rxByteCnt, hlen]; rfl
  have hsel := hinv.sboxSel (by rw [hs]; decide)
  obtain ⟨hcode, -, -⟩ := Holds.fields hinv.holds hlen
  have hopcode : s.opcode = op.code := by rw [hcode, hm, Op.code_of_decode hr.decode]
  have hsee : m.see s i = ⟨[], some r, []⟩ := by
    rw [Monitor.see, if_neg (by simp [Accepts, hs]), if_pos ⟨hs, h12⟩, hm]
  have hinv' := hsee ▸ inv_step i hinv
  have hread : ¬ReadOut i s := not_readOut i (by rw [hs]; decide) (by rw [hs]; decide)
  have hstep : (s.step i).sboxSel = 0 ∧
      ((s.step i).state = .sm3Step1 ∨ (s.step i).state = .sm4Step1) := by
    rw [step_eq i hinv.handshake]
    simp only [caseState, hs, caseRecvInst, if_pos h12, custom3Sm3p0, custom3Sm3p1, custom3Sm4ks,
      custom3Sm4ed, hopcode]
    cases op
    · exact ⟨hsel, Or.inl rfl⟩
    · exact ⟨hsel, Or.inl rfl⟩
    · exact ⟨hsel, Or.inr rfl⟩
    · exact ⟨hsel, Or.inr rfl⟩
  obtain ⟨hsel', hstate | hstate⟩ := hstep
  · refine ⟨⟨_, hinv', ?_⟩, ?_⟩
    · rw [hstate]
    · rw [Core.remaining, Core.remaining, hstate, hs]
      exact Nat.le_add_right 3 4
  · refine ⟨⟨_, hinv', ?_⟩, ?_⟩
    · rw [hstate]
    · rw [Core.remaining, Core.remaining, hstate, hs, hsel']
      exact Nat.le_refl 7

/-- The states in which the result is computed. -/
def Computing (s : Core) : Prop := 1 < s.state.code ∧ s.state.code < 8

instance (s : Core) : Decidable s.Computing := inferInstanceAs (Decidable (_ ∧ _))

theorem Computing.state_ne (h : s.Computing) :
    s.state ≠ .idle ∧ s.state ≠ .recvInst ∧ s.state ≠ .txData ∧ s.state ≠ .txOne := by
  refine ⟨?_, ?_, ?_, ?_⟩ <;> intro hs <;> rw [Computing, hs] at h <;> exact absurd h (by decide)

theorem Computing.works_iff {m : Monitor} (h : s.Computing) (hinv : Inv s m) :
    m.last = some r → Works r s := by
  obtain ⟨h1, h2, h3, h4⟩ := h.state_ne
  intro hlast
  refine ⟨m, hinv, ?_⟩
  cases hs : s.state <;> simp_all

theorem works_computing {i : Pins} (h : Works r s) (hs : s.Computing) (hread : ¬ReadOut i s) :
    Nearer r s (s.step i) := by
  obtain ⟨m, hinv, hm⟩ := h
  obtain ⟨h1, h2, h3, h4⟩ := hs.state_ne
  have hother : m.see s i = m := see_other i h1 h2 h3
  have hphase := hinv.phase
  have hstep := step_eq i hinv.handshake
  rw [if_neg hread] at hstep
  suffices hgoal : m.last = some r ∧ (s.step i).Computing ∧
      (s.step i).remaining ≤ s.remaining - 1 from
    ⟨hgoal.2.1.works_iff (hother ▸ inv_step i hinv) hgoal.1, hgoal.2.2⟩
  cases hst : s.state with
  | idle => exact absurd hst h1
  | recvInst => exact absurd hst h2
  | txData => exact absurd hst h3
  | txOne => exact absurd hst h4
  | sm3Step1 =>
    rw [hst] at hm
    simp only [caseState, hst, caseSm3Step1] at hstep
    refine ⟨hm, ?_, ?_⟩ <;> simp [hstep, hst, Computing, State.code, Core.remaining]
  | sm3Step2 =>
    rw [hst] at hm
    rw [Phase, hst] at hphase
    simp only [caseState, hst, caseSm3Step2] at hstep
    refine ⟨hm, ?_, ?_⟩ <;> simp [hstep, hst, hphase.1, Computing, State.code, Core.remaining]
  | sm3Step3 =>
    rw [hst] at hm
    simp only [caseState, hst, caseSm3Step3] at hstep
    refine ⟨hm, ?_, ?_⟩ <;> simp [hstep, Computing, State.code, Core.remaining]
  | sm4Step1 =>
    rw [hst] at hm
    rw [Phase, hst] at hphase
    obtain ⟨-, op, x, y, -, -, -, k, hk, hsel, -⟩ := hphase
    obtain ⟨hlast, hmore⟩ := step_sm4Step1 i hst hinv.handshake
    rcases Nat.lt_or_eq_of_le hk with hk4 | rfl
    · have hne : s.sboxSel ≠ 4 := by
        rw [hsel]
        interval_cases k <;> decide
      obtain ⟨hst', hsel'⟩ := hmore hne
      refine ⟨hm, ?_, ?_⟩
      · rw [Computing, hst']
        decide
      · rw [Core.remaining, Core.remaining, hst', hst, hsel', hsel]
        interval_cases k <;> exact Nat.le_refl _
    · have hst' := hlast hsel
      refine ⟨hm, ?_, ?_⟩
      · rw [Computing, hst']
        decide
      · rw [Core.remaining, Core.remaining, hst', hst, hsel]
        exact Nat.le_refl 2
  | sm4Step2 =>
    rw [hst] at hm
    rw [Phase, hst] at hphase
    simp only [caseState, hst, caseSm4Step2] at hstep
    refine ⟨hm, ?_, ?_⟩ <;> simp [hstep, hst, hphase.1, Computing, State.code, Core.remaining]
  | sm4Step3 =>
    rw [hst] at hm
    simp only [caseState, hst, caseSm4Step3] at hstep
    refine ⟨hm, ?_, ?_⟩ <;> simp [hstep, Computing, State.code, Core.remaining]

theorem works_step {i : Pins} (hr : r.Asks op x y) (h : Works r s) (hread : ¬ReadOut i s) :
    Nearer r s (s.step i) := by
  obtain ⟨h1, h2⟩ := h.state_ne
  cases hs : s.state with
  | idle => exact works_idle hr.length h hs
  | recvInst => exact works_recvInst hr h hs
  | txOne => exact absurd hs h1
  | txData => exact absurd hs h2
  | sm3Step1 | sm3Step2 | sm3Step3 | sm4Step1 | sm4Step2 | sm4Step3 =>
    exact works_computing h (by rw [Computing, hs]; decide) hread

theorem Works.handshake (h : Works r s) : s.oDataValid = s.stateCount := by
  obtain ⟨m, hinv, -⟩ := h
  exact hinv.handshake

/-- The core works, at most `n` clocks from the result, and has no byte for the transmitter. -/
structure WorksFree (r : Request) (n : ℕ) (s : Core) : Prop where
  works : Works r s
  remaining : s.remaining ≤ n
  stateCount : s.stateCount = false

/-- The core works, and has offered the answer `b` to a poll. -/
structure WorksPolled (r : Request) (n : ℕ) (b : Byte) (s : Core) : Prop where
  works : Works r s
  remaining : s.remaining ≤ n
  stateCount : s.stateCount = true
  oDataTx : s.oDataTx = b

theorem WorksFree.of_gathers (h : Gathers r s) : WorksFree r 9 s :=
  ⟨h.works, remaining_le s, h.2.1⟩

theorem worksFree_still {n : ℕ} (hr : r.Asks op x y) (h : WorksFree r n s) (busy : Bool) :
    WorksFree r (n - 1) (s.step (still busy)) := by
  obtain ⟨hw, hn, hc⟩ := h
  obtain ⟨h1, h2⟩ := hw.state_ne
  have hnext := works_step hr hw (i := still busy) (by simp [ReadOut, still])
  refine ⟨hnext.works, hnext.remaining.trans (by omega), ?_⟩
  rw [(step_handshake (still busy) h1 h2 hw.handshake).1,
    offers_of_not_polled _ (by simp [Polled, still]), released, hc, Bool.and_false]

/-- A poll is answered with what is the case when it comes. -/
theorem worksFree_polled {n : ℕ} (hr : r.Asks op x y) (h : WorksFree r n s)
    (hidle : s.state ≠ .idle) :
    WorksPolled r (s.remaining - 1) (if s.remaining = 0 then 1 else 0) (s.step (given 0xff)) := by
  obtain ⟨hw, hn, hc⟩ := h
  obtain ⟨h1, h2⟩ := hw.state_ne
  have hpoll : Polled (given 0xff) s := ⟨rfl, rfl, hidle, h2, h1, rfl, hc⟩
  have hnext := works_step hr hw (i := given 0xff) (by simp [ReadOut, given])
  obtain ⟨hcount, hbyte⟩ := step_handshake (given 0xff) h1 h2 hw.handshake
  refine ⟨hnext.works, hnext.remaining, ?_, ?_⟩
  · rw [hcount, offers, if_pos hpoll]
  · rw [hbyte, offeredByte, if_pos hpoll]
    simp only [hw.calcDone_iff]

theorem worksPolled_free {n : ℕ} {b : Byte} (hr : r.Asks op x y) (h : WorksPolled r n b s) :
    WorksPolled r n b (s.step (still false)) := by
  obtain ⟨hw, hn, hc, hb⟩ := h
  obtain ⟨h1, h2⟩ := hw.state_ne
  have hpoll : ¬Polled (still false) s := by simp [Polled, still]
  have hnext := works_step hr hw (i := still false) (by simp [ReadOut, still])
  obtain ⟨hcount, hbyte⟩ := step_handshake (still false) h1 h2 hw.handshake
  refine ⟨hnext.works, hnext.remaining.trans (by omega), ?_, ?_⟩
  · rw [hcount, offers_of_not_polled _ hpoll, released, hc]
    rfl
  · rw [hbyte, offeredByte, if_neg hpoll, hb]

theorem worksPolled_busy {n : ℕ} {b : Byte} (hr : r.Asks op x y) (h : WorksPolled r n b s) :
    WorksFree r n (s.step (still true)) := by
  obtain ⟨hw, hn, hc, hb⟩ := h
  obtain ⟨h1, h2⟩ := hw.state_ne
  have hpoll : ¬Polled (still true) s := by simp [Polled, still]
  have hnext := works_step hr hw (i := still true) (by simp [ReadOut, still])
  refine ⟨hnext.works, hnext.remaining.trans (by omega), ?_⟩
  rw [(step_handshake (still true) h1 h2 hw.handshake).1, offers_of_not_polled _ hpoll]
  rfl

/-! ### Answering -/

theorem Answers.handshake {k : ℕ} (h : Answers r k s) : s.oDataValid = s.stateCount := by
  obtain ⟨-, -, -, m, hinv, -⟩ := h
  exact hinv.handshake

theorem Works.done_state (h : Works r s) (hdone : s.calcDone = true) :
    s.state = .sm3Step3 ∨ s.state = .sm4Step3 := by
  obtain ⟨h1, h2⟩ := h.state_ne
  obtain ⟨m, hinv, -⟩ := h
  have hphase := hinv.phase
  rw [Phase] at hphase
  cases hs : s.state with
  | txOne => exact absurd hs h1
  | txData => exact absurd hs h2
  | sm3Step3 => exact Or.inl rfl
  | sm4Step3 => exact Or.inr rfl
  | idle | recvInst | sm3Step1 =>
    rw [hs] at hphase
    exact absurd (hdone.symm.trans hphase.1.1) (by decide)
  | sm3Step2 | sm4Step1 | sm4Step2 =>
    rw [hs] at hphase
    exact absurd (hdone.symm.trans hphase.1) (by decide)

/-- The read command starts the reply. -/
theorem worksFree_read (h : WorksFree r 0 s) :
    Answers r 0 (s.step (given 0)) ∧ (s.step (given 0)).stateCount = false := by
  obtain ⟨hw, hn, hc⟩ := h
  obtain ⟨h1, h2⟩ := hw.state_ne
  have hzero : s.remaining = 0 := Nat.le_zero.1 hn
  have hdone : s.calcDone = true := hw.calcDone_iff.2 hzero
  have hstate := hw.done_state hdone
  have hread : ReadOut (given 0) s := ⟨rfl, rfl, hstate, hdone⟩
  have hpoll : ¬Polled (given 0) s := by simp [Polled, given]
  obtain ⟨hcount, -⟩ := step_handshake (given 0) h1 h2 hw.handshake
  obtain ⟨m, hinv, hm⟩ := hw
  have hlast : m.last = some r := by
    rcases hstate with hs | hs <;> rw [hs] at hm <;> exact hm
  have hsee : m.see s (given 0) = m := by
    rcases hstate with hs | hs <;>
      exact see_other _ (by rw [hs]; decide) (by rw [hs]; decide) (by rw [hs]; decide)
  obtain ⟨hs', htx⟩ := step_read (given 0) hread hinv.handshake
  refine ⟨⟨hs', ?_, Nat.zero_le 5, m, hsee ▸ inv_step (given 0) hinv, hlast⟩, ?_⟩
  · rw [htx, hinv.txByteCnt h2]
    rfl
  · rw [hcount, offers_of_not_polled _ hpoll, released, hc, Bool.and_false]

theorem asks_unique {op' : Op} {x' y' : Word} (h : r.Asks op x y) (h' : r.Asks op' x' y') :
    op' = op ∧ x' = x ∧ y' = y := by
  have hop : some op' = some op := h'.decode.symm.trans h.decode
  exact ⟨Option.some.inj hop, h'.rs1.symm.trans h.rs1, h'.rs2.symm.trans h.rs2⟩

/-- What has been handed over is the beginning of the reply. -/
theorem handed_eq {m : Monitor} {k : ℕ} (hr : r.Asks op x y) (hinv : Inv s m)
    (hs : s.state = .txData) (hk : s.txByteCnt = BitVec.ofNat 3 k) (hk5 : k ≤ 5)
    (hlast : m.last = some r) : m.handed = (op.reply x y).take k := by
  have hphase := hinv.phase
  rw [Phase, hs] at hphase
  obtain ⟨op', x', y', hworks, -, -, k', hk', hcnt, hhanded⟩ := hphase
  obtain ⟨r', hlast', hasks⟩ := hworks.last
  obtain rfl : r' = r := Option.some.inj (hlast'.symm.trans hlast)
  obtain ⟨rfl, rfl, rfl⟩ := asks_unique hr hasks
  have hval : (BitVec.ofNat 3 k').toNat = (BitVec.ofNat 3 k).toNat := by rw [← hcnt, hk]
  rw [BitVec.toNat_ofNat, BitVec.toNat_ofNat, Nat.mod_eq_of_lt (by omega),
    Nat.mod_eq_of_lt (by omega)] at hval
  rw [hhanded, hval]

/-- The core has offered byte `k - 1` of the reply and waits for the transmitter. -/
structure AnswersOffered (r : Request) (k : ℕ) (b : Byte) (s : Core) : Prop where
  answers : Answers r k s
  stateCount : s.stateCount = true
  oDataTx : s.oDataTx = b

/-- The core is about to offer byte `k` of the reply, or to finish. -/
structure AnswersFree (r : Request) (k : ℕ) (s : Core) : Prop where
  answers : Answers r k s
  stateCount : s.stateCount = false

theorem answersFree_free {k : ℕ} (hr : r.Asks op x y) (h : AnswersFree r k s) (hk : k < 5)
    {b : Byte} (hb : (op.reply x y)[k]? = some b) :
    AnswersOffered r (k + 1) b (s.step (still false)) := by
  obtain ⟨⟨hs, hcnt, hk5, m, hinv, hlast⟩, hc⟩ := h
  have hne : s.txByteCnt ≠ 5 := by
    rw [hcnt]
    interval_cases k <;> decide
  obtain ⟨hs', hc', hcnt'⟩ :=
    (step_txData_free (still false) hs hinv.handshake rfl hc).2 hne
  have hinv' := inv_step (still false) hinv
  have hover : s.HandsOver (still false) :=
    ⟨hinv.handshake.trans hc, hinv'.handshake.trans hc'⟩
  have hsee : m.see s (still false) =
      { m with handed := m.handed ++ [(s.step (still false)).oDataTx] } := by
    rw [Monitor.see, if_neg (by simp [Accepts, hs]), if_neg (by simp [Decodes, hs]),
      if_pos ⟨hs, hover⟩]
  rw [hsee] at hinv'
  have hcnt1 : (s.step (still false)).txByteCnt = BitVec.ofNat 3 (k + 1) := by
    rw [hcnt', hcnt, BitVec.ofNat_add]
    rfl
  refine ⟨⟨hs', hcnt1, hk, _, hinv', hlast⟩, hc', ?_⟩
  -- the observer has recorded the byte after those before it
  have hold := handed_eq hr hinv hs hcnt hk5 hlast
  have hnew := handed_eq hr hinv' hs' hcnt1 hk hlast
  simp only [hold, List.take_add_one, hb] at hnew
  simpa using hnew

/-- A byte that is offered or on its way keeps the reply where it is. -/
theorem answers_busy {k : ℕ} {busy : Bool} (h : Answers r k s)
    (hbusy : busy = true ∨ s.stateCount = true) :
    Answers r k (s.step (still busy)) ∧
      (s.step (still busy)).stateCount = (!busy && s.stateCount) ∧
      (s.step (still busy)).oDataTx = s.oDataTx := by
  obtain ⟨hs, hcnt, hk5, m, hinv, hlast⟩ := h
  obtain ⟨hs', hc', hcnt', hbyte⟩ := step_txData_busy (still busy) hs hinv.handshake hbusy
  have hinv' := inv_step (still busy) hinv
  have hsee : m.see s (still busy) = m := by
    rw [Monitor.see, if_neg (by simp [Accepts, hs]), if_neg (by simp [Decodes, hs]), if_neg]
    rintro ⟨-, hlow, hhigh⟩
    rw [hinv'.handshake, hc', released, ← hinv.handshake, hlow, Bool.and_false] at hhigh
    cases hhigh
  exact ⟨⟨hs', hcnt'.trans hcnt, hk5, m, hsee ▸ hinv', hlast⟩, hc', hbyte⟩

theorem answersFree_busy {k : ℕ} (h : AnswersFree r k s) :
    AnswersFree r k (s.step (still true)) := by
  obtain ⟨hans, hc, -⟩ := answers_busy h.answers (Or.inl rfl)
  exact ⟨hans, hc⟩

theorem answersOffered_free {k : ℕ} {b : Byte} (h : AnswersOffered r k b s) :
    AnswersOffered r k b (s.step (still false)) := by
  obtain ⟨hans, hc, hbyte⟩ := @answers_busy s r _ false h.answers (Or.inr h.stateCount)
  exact ⟨hans, hc.trans h.stateCount, hbyte.trans h.oDataTx⟩

theorem answersOffered_busy {k : ℕ} {b : Byte} (h : AnswersOffered r k b s) :
    AnswersFree r k (s.step (still true)) := by
  obtain ⟨hans, hc, -⟩ := answers_busy h.answers (Or.inl rfl)
  exact ⟨hans, hc⟩

/-- After the fifth byte the core is where it began. -/
theorem answersFree_end (h : AnswersFree r 5 s) : Gathers [] (s.step (still false)) := by
  obtain ⟨⟨hs, hcnt, -, m, hinv, -⟩, hc⟩ := h
  obtain ⟨hs', hc'⟩ := (step_txData_free (still false) hs hinv.handshake rfl hc).1 hcnt
  have hinv' := inv_step (still false) hinv
  have hsee : m.see s (still false) = m := by
    rw [Monitor.see, if_neg (by simp [Accepts, hs]), if_neg (by simp [Decodes, hs]), if_neg]
    rintro ⟨-, -, hhigh⟩
    rw [hinv'.handshake, hc'] at hhigh
    cases hhigh
  have hphase := hinv.phase
  rw [Phase, hs] at hphase
  obtain ⟨op, x, y, hworks, -⟩ := hphase
  exact ⟨hs', hc', m, hsee ▸ hinv', hworks.pending⟩

end Working

end Vcil.Rtl.Core
