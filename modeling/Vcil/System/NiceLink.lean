import Mathlib.Order.Basic
import Vcil.Host.NiceUart
import Vcil.Rtl.NiceCoreSteps
import Vcil.System.Device

/-!
# The simulator's driver against the board

A call of `nice.h` in the build for the board, and `nice_core` at the other end of the line.  The
driver writes its ten bytes at once and takes the first bytes that come back for the reply; the
core wants twelve, in groups of four with an acknowledgement after each, and no reply leaves it
before a read command.

* `Link`, `Link.step`, `Link.run`: the composition, in which every `read()` returns all bytes
  there are, up to five;
* `Stuck`: the core never gets beyond its second acknowledgement;
* `Link.never_correct`: no call returns the right word and cycle count.
-/

namespace Vcil.System

open Vcil.Rtl Vcil.Host

/-- Where a call is. -/
inductive CallPhase
  | ready
  | reading
  | done (word : Word)
  deriving DecidableEq, Repr

/-- A driver object in a call, and the board. -/
structure Link where
  driver : NiceUart
  phase : CallPhase
  device : Device
  deriving DecidableEq, Repr

/-- One clock of the board, a byte that reaches the host, or a step of the driver; the flush at
the begin of a call leaves `kept` written bytes. -/
inductive LinkEvent
  | clock (t : Tick)
  | arrive
  | host (kept : ℕ)
  deriving DecidableEq, Repr

namespace Link

/-- A new driver object, and the board after reset. -/
def init : Link := ⟨NiceUart.init, .ready, Device.init⟩

variable (frame : ℕ) (op : Op) (x y : Word)

/-- A step of the driver: the request, or one `read()` of at most five bytes. -/
def hostStep (l : Link) (kept : ℕ) : Link :=
  match l.phase with
  | .ready =>
      let req := NiceUart.requestFor op x y
      ⟨l.driver.send req, .reading, (l.device.flush kept).write req.toList⟩
  | .reading =>
      let bytes := l.device.rx.take 5
      let device := l.device.read bytes.length
      match l.driver.resume (some bytes) with
      | (driver, true) => ⟨driver.finish.2, .done driver.finish.1, device⟩
      | (driver, false) => ⟨driver, .reading, device⟩
  | .done _ => l

def step (l : Link) : LinkEvent → Link
  | .clock t => { l with device := l.device.clock frame t }
  | .arrive => { l with device := l.device.arrive }
  | .host kept => l.hostStep op x y kept

/-- The call for `op` on `x` and `y` over a sequence of events. -/
def run (events : List LinkEvent) : Link := Clocked.run (step frame op x y) init events

/-- The call has returned the reference value, and the object shows the core's cycle count. -/
def Correct (l : Link) : Prop := l.phase = .done (op.eval x y) ∧ l.driver.cycles = op.cycles

end Link

/-! ### What the core makes of ten bytes -/

/-- An acknowledgement in the transmitter, or about to get there. -/
def owed (d : Device) : ℕ := if d.tx.isSome ∨ d.core.state = .txOne then 1 else 0

/-- The core has accepted `n` bytes, at most ten with those on the way, and has handed over no
more acknowledgements than it has complete groups. -/
structure Stuck (d : Device) (n : ℕ) : Prop where
  handshake : d.core.oDataValid = d.core.stateCount
  state : d.core.state = .idle ∨ d.core.state = .txOne
  idle : d.core.state = .idle → d.core.oDataValid = false
  rxByteCnt : d.core.rxByteCnt = BitVec.ofNat 4 n
  bound : n + d.down.length ≤ 10
  acks : d.up.length + d.rx.length + owed d ≤ n / 4

section Stuck

variable {d : Device} {n : ℕ} {frame : ℕ}

theorem stuck_init : Stuck Device.init 0 where
  handshake := rfl
  state := Or.inl rfl
  idle _ := rfl
  rxByteCnt := rfl
  bound := by decide
  acks := by decide

theorem Stuck.rxByteCnt_lt (h : Stuck d n) :
    d.core.rxByteCnt < 12 ∧ d.core.rxByteCnt.toNat = n := by
  have hn : n ≤ 10 := by have := h.bound; omega
  have hval : d.core.rxByteCnt.toNat = n := by
    rw [h.rxByteCnt, BitVec.toNat_ofNat]
    omega
  refine ⟨?_, hval⟩
  rw [BitVec.lt_def, hval]
  show n < 12
  omega

theorem length_down_clock (frame : ℕ) (d : Device) (t : Tick) :
    (d.clock frame t).down.length + (if (d.delivery frame t).isSome then 1 else 0) =
      d.down.length := by
  show (if (d.delivery frame t).isSome then d.down.tail else d.down).length + _ = _
  cases hdel : d.delivery frame t with
  | none => rfl
  | some b =>
    have hne : d.down ≠ [] := by
      intro hnil
      rw [Device.delivery, hnil] at hdel
      split at hdel <;> cases hdel
    have := List.length_pos_iff.2 hne
    simp only [Option.isSome_some, if_true, List.length_tail]
    omega

/-- The byte in the transmitter stays there or moves on to the line. -/
theorem sent_or_nextTx (frame : ℕ) (t : Tick) (htx : d.tx.isSome) :
    ((d.nextTx frame t).isSome = true ∧ d.sent frame t = none) ∨
      (d.nextTx frame t = none ∧ (d.sent frame t).toList.length = 1) := by
  obtain ⟨⟨b, n⟩, htx⟩ := Option.isSome_iff_exists.1 htx
  rw [Device.nextTx, htx]
  cases hsent : d.sent frame t with
  | none => exact Or.inl ⟨rfl, rfl⟩
  | some b => exact Or.inr ⟨rfl, rfl⟩

theorem Stuck.clock_idle (h : Stuck d n) (hs : d.core.state = .idle) (t : Tick) :
    Stuck (d.clock frame t) (n + if (d.delivery frame t).isSome then 1 else 0) := by
  obtain ⟨hlt, hval⟩ := h.rxByteCnt_lt
  obtain ⟨hstate, hvalid, hcount, hrx⟩ := Core.step_idle (d.pins frame t) hs h.handshake
  have hlen := length_down_clock frame d t
  have hbound := h.bound
  have hrel : d.core.released (d.pins frame t) = false := by
    rw [Core.released, ← h.handshake, h.idle hs, Bool.and_false]
  rw [hrel] at hvalid hcount
  have hne : d.core.rxByteCnt ≠ 12 := fun h12 => by
    rw [h12] at hlt
    exact absurd hlt (by decide)
  have hpin : (d.pins frame t).iDataValid = (d.delivery frame t).isSome := rfl
  have hnext : (d.clock frame t).core.state =
      if (d.delivery frame t).isSome = true ∧ (n + 1) % 4 = 0 then .txOne else .idle := by
    refine hstate.trans ?_
    rw [Core.idleNext, if_neg hne, hval, hpin]
    by_cases hdel : (d.delivery frame t).isSome = true
    · simp only [hdel, hlt, and_self, if_true, true_and]
    · simp only [hdel, Bool.false_eq_true, false_and, if_false]
  refine ⟨hvalid.trans hcount.symm, ?_, fun _ => hvalid, ?_, by omega, ?_⟩
  · rw [hnext]
    split_ifs
    · exact Or.inr rfl
    · exact Or.inl rfl
  · refine hrx.trans ?_
    rw [hpin]
    by_cases hdel : (d.delivery frame t).isSome = true
    · rw [if_pos ⟨hdel, hlt⟩, if_pos hdel, h.rxByteCnt, BitVec.ofNat_add]
      rfl
    · rw [if_neg fun hacc => hdel hacc.1, if_neg hdel, h.rxByteCnt, Nat.add_zero]
  · have hacks := h.acks
    rw [owed] at hacks ⊢
    rw [hnext]
    show (d.up ++ (d.sent frame t).toList).length + d.rx.length +
      (if (d.nextTx frame t).isSome = true ∨ _ then 1 else 0) ≤ _
    rw [List.length_append]
    cases htx : d.tx with
    | none =>
      have hsent : d.sent frame t = none := by rw [Device.sent, htx]
      have hnextTx : d.nextTx frame t = none := by
        rw [Device.nextTx, htx]
        simp [h.idle hs]
      simp only [htx, hs, hsent, hnextTx] at hacks ⊢
      split_ifs <;> simp_all <;> omega
    | some p =>
      have hmoves := sent_or_nextTx frame t (by rw [htx]; rfl)
      simp only [htx, Option.isSome_some, true_or, if_true] at hacks
      rcases hmoves with ⟨hnextTx, hsent⟩ | ⟨hnextTx, hsent⟩
      · simp only [hnextTx, hsent, true_or, if_true, Option.toList_none, List.length_nil]
        split_ifs <;> omega
      · simp only [hnextTx, hsent]
        split_ifs <;> simp_all <;> omega

theorem Stuck.clock_txOne (h : Stuck d n) (hs : d.core.state = .txOne) (t : Tick) :
    Stuck (d.clock frame t) n := by
  obtain ⟨hstate, hvalid, hcount, hrx⟩ := Core.step_txOne (d.pins frame t) hs h.handshake
  have hlen := length_down_clock frame d t
  have hbound := h.bound
  have hpin : (d.pins frame t).iState0 = d.tx.isSome := rfl
  rw [hpin] at hstate hvalid hcount
  refine ⟨hvalid.trans hcount.symm, ?_, ?_, hrx.trans h.rxByteCnt, by omega, ?_⟩
  · show (d.core.step _).state = _ ∨ (d.core.step _).state = _
    rw [hstate]
    split_ifs
    · exact Or.inl rfl
    · exact Or.inr rfl
  · intro hidle
    have hidle : (if d.tx.isSome = true then State.idle else State.txOne) = .idle :=
      hstate.symm.trans hidle
    cases htx : d.tx with
    | none =>
      rw [htx] at hidle
      cases hidle
    | some p => exact hvalid.trans (by rw [htx]; rfl)
  · have hacks := h.acks
    rw [owed, if_pos (Or.inr hs)] at hacks
    show (d.up ++ (d.sent frame t).toList).length + d.rx.length +
      (if (d.nextTx frame t).isSome = true ∨ (d.core.step _).state = .txOne then 1 else 0) ≤ _
    rw [List.length_append, hstate]
    cases htx : d.tx with
    | none =>
      have hsent : d.sent frame t = none := by rw [Device.sent, htx]
      rw [hsent]
      split_ifs <;> simp <;> omega
    | some p =>
      rcases sent_or_nextTx frame t (by rw [htx]; rfl) with hmoves | hmoves
      · rw [hmoves.2]
        split_ifs <;> simp <;> omega
      · rw [hmoves.1, hmoves.2]
        simp only [Option.isSome_some, if_true, Option.isSome_none, Bool.false_eq_true, false_or,
          reduceCtorEq, if_false]
        omega

theorem Stuck.clock (h : Stuck d n) (t : Tick) : ∃ n', Stuck (d.clock frame t) n' := by
  rcases h.state with hs | hs
  · exact ⟨_, h.clock_idle hs t⟩
  · exact ⟨_, h.clock_txOne hs t⟩

theorem Stuck.arrive (h : Stuck d n) : Stuck d.arrive n where
  handshake := h.handshake
  state := h.state
  idle := h.idle
  rxByteCnt := h.rxByteCnt
  bound := h.bound
  acks := by
    have hacks := h.acks
    show d.up.tail.length + (d.rx ++ d.up.head?.toList).length + owed d ≤ n / 4
    cases hup : d.up with
    | nil => simpa [hup] using hacks
    | cons b bs =>
      rw [hup, List.length_cons] at hacks
      simp only [List.tail_cons, List.head?_cons, Option.toList_some, List.length_append,
        List.length_singleton]
      omega

theorem Stuck.read (h : Stuck d n) (k : ℕ) : Stuck (d.read k) n where
  handshake := h.handshake
  state := h.state
  idle := h.idle
  rxByteCnt := h.rxByteCnt
  bound := h.bound
  acks := by
    have hacks := h.acks
    show d.up.length + (d.rx.drop k).length + owed d ≤ n / 4
    rw [List.length_drop]
    omega

end Stuck

/-! ### The call -/

/-- The reply buffer never gets a fifth byte, so the cycle count stays 0. -/
structure LinkInv (l : Link) : Prop where
  fifth : replyCycles l.driver.readBuff = 0
  cycles : l.driver.cycles = 0
  device : match l.phase with
    | .ready => Stuck l.device 0 ∧ l.device.down = []
    | .reading => ∃ n, Stuck l.device n
    | .done _ => True

section Call

variable {l : Link} {frame : ℕ}

theorem linkInv_init : LinkInv Link.init := ⟨rfl, rfl, stuck_init, rfl⟩

theorem LinkInv.clock (h : LinkInv l) (t : Tick) :
    LinkInv { l with device := l.device.clock frame t } := by
  refine ⟨h.fifth, h.cycles, ?_⟩
  have hdev := h.device
  cases hp : l.phase with
  | ready =>
    simp only [hp] at hdev ⊢
    obtain ⟨hstuck, hdown⟩ := hdev
    have hdel : l.device.delivery frame t = none := by
      rw [Device.delivery, hdown]
      split_ifs <;> rfl
    refine ⟨?_, ?_⟩
    · rcases hstuck.state with hs | hs
      · have hnext : Stuck (l.device.clock frame t) _ := hstuck.clock_idle hs t
        rwa [hdel] at hnext
      · exact hstuck.clock_txOne hs t
    · show (if (l.device.delivery frame t).isSome = true then _ else l.device.down) = []
      rw [hdel, hdown]
      rfl
  | reading =>
    simp only [hp] at hdev ⊢
    obtain ⟨n, hstuck⟩ := hdev
    exact hstuck.clock t
  | done w => trivial

theorem LinkInv.arrive (h : LinkInv l) : LinkInv { l with device := l.device.arrive } := by
  refine ⟨h.fifth, h.cycles, ?_⟩
  have hdev := h.device
  cases hp : l.phase with
  | ready =>
    simp only [hp] at hdev ⊢
    exact ⟨hdev.1.arrive, hdev.2⟩
  | reading =>
    simp only [hp] at hdev ⊢
    obtain ⟨n, hstuck⟩ := hdev
    exact ⟨n, hstuck.arrive⟩
  | done w => trivial

/-- A read of fewer than five bytes leaves the fifth alone. -/
theorem store_fifth {bs : List Byte} (hbs : bs.length < 5) (buf : Vector Byte 5) :
    replyCycles (ReadResult.store (some bs) buf) = replyCycles buf := by
  have hnone : bs[4]? = none := List.getElem?_eq_none (by omega)
  simp [replyCycles, ReadResult.store, hnone]

theorem LinkInv.hostStep (op : Op) (x y : Word) (kept : ℕ) (h : LinkInv l) :
    LinkInv (l.hostStep op x y kept) := by
  obtain ⟨hfifth, hcycles, hdev⟩ := h
  cases hp : l.phase with
  | ready =>
    simp only [hp] at hdev
    obtain ⟨hstuck, hdown⟩ := hdev
    rw [Link.hostStep, hp]
    refine ⟨hfifth, hcycles, 0, hstuck.handshake, hstuck.state, hstuck.idle, hstuck.rxByteCnt, ?_, ?_⟩
    · show 0 + (l.device.down.take kept ++ _).length ≤ 10
      simp [hdown]
    · have hacks := hstuck.acks
      show l.device.up.length + ([] : List Byte).length + owed l.device ≤ 0 / 4
      rw [List.length_nil]
      omega
  | reading =>
    simp only [hp] at hdev
    obtain ⟨n, hstuck⟩ := hdev
    have hlen : (l.device.rx.take 5).length < 5 := by
      have hacks := hstuck.acks
      have hbound := hstuck.bound
      rw [List.length_take]
      omega
    have hbuff := store_fifth hlen l.driver.readBuff
    rw [Link.hostStep, hp]
    dsimp only [NiceUart.resume]
    cases decide (0 < Host.nread 32 (some (l.device.rx.take 5))) with
    | true => exact ⟨hbuff.trans hfifth, hbuff.trans hfifth, trivial⟩
    | false => exact ⟨hbuff.trans hfifth, hcycles, n, hstuck.read _⟩
  | done w =>
    rw [Link.hostStep, hp]
    exact ⟨hfifth, hcycles, by rw [hp]; trivial⟩

theorem linkInv_run (frame : ℕ) (op : Op) (x y : Word) (events : List LinkEvent) :
    LinkInv (Link.run frame op x y events) := by
  refine Clocked.run_induction linkInv_init (fun l e h => ?_) events
  cases e with
  | clock t => exact h.clock t
  | arrive => exact h.arrive
  | host kept => exact h.hostStep op x y kept

end Call

/-! ### Main result -/

/-- Whatever the operation, the operands and the timing, the call does not return the reference
value with the core's cycle count. -/
theorem Link.never_correct (frame : ℕ) (op : Op) (x y : Word) (events : List LinkEvent) :
    ¬(run frame op x y events).Correct op x y := by
  rintro ⟨-, hcycles⟩
  rw [(linkInv_run frame op x y events).cycles] at hcycles
  cases op <;> cases hcycles

/-- A call of `custom3_sm3p0` on `0x12345678` up to its return: the first acknowledgement is taken
for the reply. -/
def p0Call : List LinkEvent :=
  let wait := LinkEvent.clock ⟨true, true, true⟩
  [.host 0] ++ List.replicate 40 wait ++ [.arrive, .host 0]

theorem Link.wrong_p0 :
    (run 4 .sm3p0 0x12345678 0 p0Call).phase = .done 0x01000000 ∧
      (run 4 .sm3p0 0x12345678 0 p0Call).driver.cycles = 0 ∧
      Op.eval .sm3p0 0x12345678 0 ≠ 0x01000000 ∧ Op.cycles .sm3p0 = 3 := by
  decide

end Vcil.System
