import Mathlib.Tactic.Linarith
import Vcil.Rtl.UartTop

/-!
# Requests over the lines of `uart_top`

What `uart_top` sends for the requests it receives, clock by clock.  The host waits for nothing but
the reply: the acknowledgement of a group and the answer to a poll are sent while the next byte
comes in.

* `NiceTx.Free`: the core and the transmitter between two bytes, and the rules `wait`, `next` and
  `handOver` that lead from such a clock to a later one;
* `Exchange`: a request with its polls and its read command, with the pauses after the bytes;
* `NiceTx.Free.exchanges`: what is committed for a list of exchanges;
* `UartTop.answers_exchanges`: the line `o_uart_tx` for frames on `i_uart_rx`.
-/

namespace Vcil.Rtl

open Clocked SerialLine Pulses

namespace Core

variable {s : Core} {r : Request} {k : ℕ}

theorem WorksFree.oDataValid (h : WorksFree r k s) : s.oDataValid = false :=
  h.works.handshake.trans h.stateCount

theorem AnswersFree.oDataValid (h : AnswersFree r k s) : s.oDataValid = false :=
  h.answers.handshake.trans h.stateCount

theorem gathers_reset : Gathers [] reset := ⟨rfl, rfl, Monitor.start, inv_reset, rfl⟩

variable (s) in
/-- Without a byte the data input does not matter. -/
theorem step_invalid (b : Byte) (busy : Bool) :
    s.step ⟨b, false, busy⟩ = s.step (still busy) := by
  have hpoll : ∀ b n, poll ⟨b, false, busy⟩ s n =
      if busy = true then { n with oDataValid := false, stateCount := false } else n :=
    fun b n => if_neg fun h => Bool.noConfusion h.1
  have hread : ∀ b n, readCommand ⟨b, false, busy⟩ s n = n :=
    fun b n => if_neg fun h => Bool.noConfusion h.1
  have hidle : ∀ b n, caseIdle ⟨b, false, busy⟩ s n =
      if s.rxByteCnt = 12 then { n with state := .recvInst } else { n with state := .idle } :=
    fun b n => if_neg fun h => Bool.noConfusion h.1
  simp only [step, still, hpoll, hread]
  cases hs : s.state <;> simp only [caseState, hs, hidle, caseTxData, caseTxOne]

end Core

namespace NiceTx

open Vcil.Rtl.Core

variable {C parityType : ℕ}

/-- The byte given to the core in clock `n`. -/
def given? (is : ℕ → Byte × Bool) (n : ℕ) : Option Byte := if (is n).2 then some (is n).1 else none

variable (C parityType) in
/-- In clock `n` the core satisfies `P`, the transmitter is free, and `cs` has been committed. -/
structure Free (is : ℕ → Byte × Bool) (P : Core → Prop) (cs : List Byte) (n : ℕ) : Prop where
  core : P (after C parityType is n).core
  idle : UartTx.Idle (shown C parityType is) n
  commits : (commits C parityType is n).map Prod.snd = cs

section Rules

variable {is : ℕ → Byte × Bool} {P Q : Core → Prop} {cs : List Byte} {n m : ℕ}

theorem core_quiet (hn : given? is n = none) : (after C parityType is (n + 1)).core =
    (after C parityType is n).core.step (still (after C parityType is n).tx.oState0) := by
  have hvalid : (is n).2 = false := by
    by_contra hv
    rw [given?, if_pos (by simpa using hv)] at hn
    cases hn
  show Core.step (after C parityType is n).core
    ⟨(is n).1, (is n).2, (after C parityType is n).tx.oState0⟩ = _
  rw [hvalid, step_invalid]

theorem core_given {b : Byte} (hn : given? is n = some b)
    (hfree : (after C parityType is n).tx.oState0 = false) :
    (after C parityType is (n + 1)).core = (after C parityType is n).core.step (given b) := by
  obtain ⟨hv, hb⟩ : (is n).2 = true ∧ (is n).1 = b := by
    rw [given?] at hn
    split_ifs at hn with hv
    exact ⟨hv, Option.some.inj hn⟩
  show Core.step (after C parityType is n).core
    ⟨(is n).1, (is n).2, (after C parityType is n).tx.oState0⟩ = _
  rw [hv, hb, hfree]
  rfl

theorem Free.state0 (h : Free C parityType is P cs n) :
    (after C parityType is n).tx.oState0 = false := by
  rw [tx_after]
  exact h.idle.resting.state0

variable (hC : 8 ≤ C)
include hC

/-- A clock in which nothing is offered. -/
theorem Free.next (h : Free C parityType is P cs n) (hvalid : ∀ s, P s → s.oDataValid = false)
    (hQ : Q (after C parityType is (n + 1)).core) : Free C parityType is Q cs (n + 1) := by
  have hrise : TxPins.rises (shown C parityType is) n = false :=
    h.idle.rises_iff.trans (hvalid _ h.core)
  refine ⟨hQ, h.idle.wait hrise hC, ?_⟩
  have hcommits := h.commits
  rw [NiceTx.commits] at hcommits ⊢
  rw [TxPins.offers_succ, hrise, if_neg Bool.false_ne_true, List.append_nil, hcommits]

theorem Free.quiet (h : Free C parityType is P cs n) (hvalid : ∀ s, P s → s.oDataValid = false)
    (hn : given? is n = none) (hstep : ∀ s, P s → Q (s.step (still false))) :
    Free C parityType is Q cs (n + 1) := by
  refine h.next hC hvalid ?_
  rw [core_quiet hn, h.state0]
  exact hstep _ h.core

theorem Free.give {b : Byte} (h : Free C parityType is P cs n)
    (hvalid : ∀ s, P s → s.oDataValid = false) (hn : given? is n = some b)
    (hstep : ∀ s, P s → Q (s.step (given b))) : Free C parityType is Q cs (n + 1) := by
  refine h.next hC hvalid ?_
  rw [core_given hn h.state0]
  exact hstep _ h.core

theorem Free.wait (h : Free C parityType is P cs n) (hvalid : ∀ s, P s → s.oDataValid = false)
    (hstep : ∀ s, P s → P (s.step (still false))) (hnm : n ≤ m)
    (hquiet : ∀ k, n ≤ k → k < m → given? is k = none) : Free C parityType is P cs m := by
  induction m, hnm using Nat.le_induction with
  | base => exact h
  | succ m hnm ih =>
    exact (ih fun k hlo hhi => hquiet k hlo (by omega)).quiet hC hvalid
      (hquiet m hnm (Nat.lt_succ_self m)) hstep

variable (hC' : C ≤ 65536)
include hC'

/-- A byte that the core offers goes through the transmitter, while the core is in one of the states
`After`, one clock in each. -/
theorem Free.handOver (After : ℕ → Core → Prop) {Hold : Core → Prop} {b : Byte}
    (h : Free C parityType is Hold cs n)
    (hvalid : ∀ s, Hold s → s.oDataValid = true ∧ s.oDataTx = b)
    (hhold : ∀ s, Hold s → Hold (s.step (still false)))
    (htake : ∀ s, Hold s → After 0 (s.step (still true)))
    (hafter : ∀ k s, After k s → After (k + 1) (s.step (still true)))
    (hquiet : ∀ k, n ≤ k → k < n + (9 * C + C / 2 + 4) → given? is k = none) :
    Free C parityType is (After (9 * C + C / 2 + 2)) (cs ++ [b]) (n + (9 * C + C / 2 + 4)) := by
  have hhand : UartTx.Handshake (shown C parityType is) := handshake is
  have hlt := UartTx.half_lt_bitTime parityType hC hC'
  have hdur := UartTx.duration_uartTop parityType hC hC'
  obtain ⟨hv, hb⟩ := hvalid _ h.core
  have hrise : TxPins.rises (shown C parityType is) n = true := h.idle.rises_iff.trans hv
  have hbusy : ∀ e, 1 ≤ e → e < 9 * C + C / 2 + 4 →
      (after C parityType is (n + e)).tx.oState0 = true := fun e he he' => by
    rw [tx_after]
    exact UartTx.busy_at hhand (Nat.succ_pos 7) (show 8 < 15 by decide) hC hlt h.idle hrise he
      (by rw [hdur]; exact he')
  have hone : Hold (after C parityType is (n + 1)).core := by
    rw [core_quiet (hquiet n (Nat.le_refl n) (by omega)), h.state0]
    exact hhold _ h.core
  have hrest : ∀ j, j ≤ 9 * C + C / 2 + 2 → After j (after C parityType is (n + (2 + j))).core := by
    intro j hj
    induction j with
    | zero =>
      rw [show n + (2 + 0) = n + 1 + 1 from rfl, core_quiet (hquiet (n + 1) (by omega) (by omega)),
        hbusy 1 (Nat.le_refl 1) (by omega)]
      exact htake _ hone
    | succ j ih =>
      rw [show n + (2 + (j + 1)) = n + (2 + j) + 1 from rfl,
        core_quiet (hquiet (n + (2 + j)) (by omega) (by omega)), hbusy _ (by omega) (by omega)]
      exact hafter _ _ (ih (by omega))
  refine ⟨?_, ?_, ?_⟩
  · have hend := hrest _ (Nat.le_refl _)
    rwa [show 2 + (9 * C + C / 2 + 2) = 9 * C + C / 2 + 4 by omega] at hend
  · have hagain := UartTx.idle_again hhand (Nat.succ_pos 7) (show 8 < 15 by decide) hC hlt h.idle
      hrise
    rwa [hdur] at hagain
  · have hoffers := UartTx.offers_sending hhand (Nat.succ_pos 7) (show 8 < 15 by decide) hC hlt
      h.idle hrise (show 1 ≤ 9 * C + C / 2 + 4 by omega) (by rw [hdur])
    rw [NiceTx.commits, hoffers, List.map_append]
    exact congrArg₂ (· ++ ·) h.commits (congrArg (fun x => [x]) hb)

/-! ### One byte given -/

variable {bs : List Byte} {b : Byte} {g : ℕ} {r : Request} {op : Op} {x y : Word}

/-- A complete group is acknowledged. -/
theorem Free.acknowledge (After : ℕ → Core → Prop) (h : Free C parityType is (Acks bs false) cs n)
    (htake : ∀ s, Acks bs true s → After 0 (s.step (still true)))
    (hafter : ∀ k s, After k s → After (k + 1) (s.step (still true)))
    (hquiet : ∀ k, n ≤ k → k < n + (9 * C + C / 2 + 5) → given? is k = none) :
    Free C parityType is (After (9 * C + C / 2 + 2)) (cs ++ [1]) (n + (9 * C + C / 2 + 5)) := by
  have hoffered : Free C parityType is (Acks bs true) cs (n + 1) :=
    h.quiet hC (fun _ => Acks.oDataValid) (hquiet n (Nat.le_refl n) (by omega)) fun _ => acks_free
  have hdone := hoffered.handOver hC hC' After (fun _ hs => ⟨hs.oDataValid, hs.2.2.1 rfl⟩)
    (fun _ => acks_free) htake hafter fun k hlo hhi => hquiet k (by omega) (by omega)
  rwa [show n + 1 + (9 * C + C / 2 + 4) = n + (9 * C + C / 2 + 5) by omega] at hdone

/-- A byte of the request that is not the last. -/
theorem Free.gather (h : Free C parityType is (Gathers bs) cs n) (hbs : bs.length + 1 < 12)
    (hn : given? is n = some b) (hg : 9 * C + C / 2 + 6 ≤ g)
    (hquiet : ∀ k, n < k → k < n + g → given? is k = none) :
    Free C parityType is (Gathers (bs ++ [b]))
      (cs ++ if (bs.length + 1) % 4 = 0 then [1] else []) (n + g) := by
  have hlen : (bs ++ [b]).length < 12 := by rw [List.length_append]; exact hbs
  have hstill : ∀ s, Gathers (bs ++ [b]) s → Gathers (bs ++ [b]) (s.step (still false)) :=
    fun s hs => gathers_still hs hlen false
  split_ifs with h4
  · have hacks : Free C parityType is (Acks (bs ++ [b]) false) cs (n + 1) :=
      h.give hC (fun _ => Gathers.oDataValid) hn fun s hs => (gathers_given hs (by omega) b).2 h4
    have hdone := hacks.acknowledge hC hC' (fun _ => Gathers (bs ++ [b]))
      (fun _ => acks_busy) (fun _ s hs => gathers_still hs hlen true)
      fun k hlo hhi => hquiet k (by omega) (by omega)
    exact hdone.wait hC (fun _ => Gathers.oDataValid) hstill (by omega)
      fun k hlo hhi => hquiet k (by omega) hhi
  · rw [List.append_nil]
    have hnext : Free C parityType is (Gathers (bs ++ [b])) cs (n + 1) :=
      h.give hC (fun _ => Gathers.oDataValid) hn fun s hs => (gathers_given hs (by omega) b).1 h4
    exact hnext.wait hC (fun _ => Gathers.oDataValid) hstill (by omega)
      fun k hlo hhi => hquiet k (by omega) hhi

/-- The last byte of the request: when its group is acknowledged the result is there. -/
theorem Free.gatherLast (h : Free C parityType is (Gathers bs) cs n) (hbs : bs.length + 1 = 12)
    (hr : Request.Asks (bs ++ [b]) op x y) (hn : given? is n = some b)
    (hg : 9 * C + C / 2 + 6 ≤ g) (hquiet : ∀ k, n < k → k < n + g → given? is k = none) :
    Free C parityType is (WorksFree (bs ++ [b]) 0) (cs ++ [1]) (n + g) := by
  have hacks : Free C parityType is (Acks (bs ++ [b]) false) cs (n + 1) :=
    h.give hC (fun _ => Gathers.oDataValid) hn fun s hs =>
      (gathers_given hs (by omega) b).2 (by rw [hbs])
  have hdone := hacks.acknowledge hC hC' (fun k => WorksFree (bs ++ [b]) (9 - k))
    (fun _ hs => WorksFree.of_gathers (acks_busy hs)) (fun _ _ hs => worksFree_still hr hs true)
    fun k hlo hhi => hquiet k (by omega) (by omega)
  rw [show 9 - (9 * C + C / 2 + 2) = 0 by omega] at hdone
  exact hdone.wait hC (fun _ => WorksFree.oDataValid) (fun _ hs => worksFree_still hr hs false)
    (by omega) fun k hlo hhi => hquiet k (by omega) hhi

/-- A poll after the result is there. -/
theorem Free.poll (h : Free C parityType is (WorksFree r 0) cs n) (hr : r.Asks op x y)
    (hn : given? is n = some 0xff) (hg : 9 * C + C / 2 + 6 ≤ g)
    (hquiet : ∀ k, n < k → k < n + g → given? is k = none) :
    Free C parityType is (WorksFree r 0) (cs ++ [1]) (n + g) := by
  have hstill : ∀ busy s, WorksFree r 0 s → WorksFree r 0 (s.step (still busy)) :=
    fun busy _ hs => worksFree_still hr hs busy
  have hoffered : Free C parityType is (WorksPolled r 0 1) cs (n + 1) := by
    refine h.give hC (fun _ => WorksFree.oDataValid) hn fun s hs => ?_
    have h0 : s.remaining = 0 := Nat.le_zero.1 hs.remaining
    have hpolled := worksFree_polled hr hs fun hidle => by
      rw [remaining, hidle] at h0
      cases h0
    rwa [h0, if_pos rfl] at hpolled
  have hdone := hoffered.handOver hC hC' (fun _ => WorksFree r 0)
    (fun _ hs => ⟨hs.works.handshake.trans hs.stateCount, hs.oDataTx⟩)
    (fun _ hs => worksPolled_free hr hs) (fun _ hs => worksPolled_busy hr hs)
    (fun _ => hstill true) fun k hlo hhi => hquiet k (by omega) (by omega)
  exact hdone.wait hC (fun _ => WorksFree.oDataValid) (hstill false) (by omega)
    fun k hlo hhi => hquiet k (by omega) hhi

/-- `k` bytes of the reply, after the first `j`. -/
theorem Free.answer {j : ℕ} (h : Free C parityType is (AnswersFree r j) cs n) (hr : r.Asks op x y)
    {k : ℕ} (hk : j + k ≤ 5)
    (hquiet : ∀ i, n ≤ i → i < n + k * (9 * C + C / 2 + 5) → given? is i = none) :
    Free C parityType is (AnswersFree r (j + k)) (cs ++ ((op.reply x y).drop j).take k)
      (n + k * (9 * C + C / 2 + 5)) := by
  induction k with
  | zero => simpa using h
  | succ k ih =>
    rw [Nat.succ_mul] at hquiet ⊢
    have hfree := ih (by omega) fun i hlo hhi => hquiet i hlo (by omega)
    have hlen : (op.reply x y).length = 5 := by simp [Op.reply, Words.beBytes]
    obtain ⟨b, hb⟩ : ∃ b, (op.reply x y)[j + k]? = some b :=
      ⟨_, List.getElem?_eq_getElem (by omega)⟩
    have hoffered : Free C parityType is (AnswersOffered r (j + k + 1) b) _ _ :=
      hfree.quiet hC (fun _ => AnswersFree.oDataValid) (hquiet _ (by omega) (by omega))
        fun _ hs => answersFree_free hr hs (by omega) hb
    have hdone := hoffered.handOver hC hC' (fun _ => AnswersFree r (j + k + 1))
      (fun _ hs => ⟨hs.answers.handshake.trans hs.stateCount, hs.oDataTx⟩)
      (fun _ => answersOffered_free) (fun _ => answersOffered_busy) (fun _ _ => answersFree_busy)
      fun i hlo hhi => hquiet i (by omega) (by omega)
    rw [List.take_add_one, List.getElem?_drop, hb, ← List.append_assoc, ← Nat.add_assoc n]
    rwa [Nat.add_assoc _ 1, show 1 + (9 * C + C / 2 + 4) = 9 * C + C / 2 + 5 by omega] at hdone

/-- The rest of the reply, and the core is where it began. -/
theorem Free.answerAll {j : ℕ} (h : Free C parityType is (AnswersFree r j) cs n)
    (hr : r.Asks op x y) (hj : j ≤ 5) (hg : (5 - j) * (9 * C + C / 2 + 5) + 1 ≤ g)
    (hquiet : ∀ k, n ≤ k → k < n + g → given? is k = none) :
    Free C parityType is (Gathers []) (cs ++ (op.reply x y).drop j) (n + g) := by
  have hall := h.answer hC hC' hr (k := 5 - j) (by omega)
    fun k hlo hhi => hquiet k hlo (by omega)
  rw [Nat.add_sub_cancel' hj, List.take_of_length_le (by simp [Op.reply, Words.beBytes])] at hall
  have hend : Free C parityType is (Gathers []) (cs ++ (op.reply x y).drop j) _ :=
    hall.quiet hC (fun _ => AnswersFree.oDataValid) (hquiet _ (by omega) (by omega))
      fun _ => answersFree_end
  exact hend.wait hC (fun _ => Gathers.oDataValid)
    (fun _ hs => gathers_still hs (Nat.succ_pos 11) false) (by omega)
    fun k hlo hhi => hquiet k (by omega) hhi

/-- The read command: the five bytes of the reply are sent, and the core is where it began. -/
theorem Free.read (h : Free C parityType is (WorksFree r 0) cs n) (hr : r.Asks op x y)
    (hn : given? is n = some 0) (hg : 5 * (9 * C + C / 2 + 5) + 2 ≤ g)
    (hquiet : ∀ k, n < k → k < n + g → given? is k = none) :
    Free C parityType is (Gathers []) (cs ++ op.reply x y) (n + g) := by
  have hfirst : Free C parityType is (AnswersFree r 0) cs (n + 1) := by
    refine h.give hC (fun _ => WorksFree.oDataValid) hn fun s hs => ?_
    obtain ⟨hanswers, hcount⟩ := worksFree_read hs
    exact ⟨hanswers, hcount⟩
  have hall := hfirst.answerAll (g := g - 1) hC hC' hr (Nat.zero_le 5) (by omega)
    fun k hlo hhi => hquiet k (by omega) (by omega)
  rwa [show n + 1 + (g - 1) = n + g by omega] at hall

end Rules

/-! ### Exchanges -/

section Exchanges

variable {is : ℕ → Byte × Bool} {cs : List Byte} {n d : ℕ} (hC : 8 ≤ C) (hC' : C ≤ 65536)
  (hd : 9 * C + C / 2 + 6 ≤ d)
include hC hC' hd

/-- The rest of a request, `d` clocks and its own pause for each byte. -/
theorem Free.request {bs : List Byte} {op : Op} {x y : Word} {ps : List (Byte × ℕ)} (hps : ps ≠ [])
    (h : Free C parityType is (Core.Gathers bs) cs n)
    (hr : Request.Asks (bs ++ ps.map Prod.fst) op x y)
    (hshows : Shows (given? is) n (ps.map fun p => (p.1, d + p.2))) :
    Free C parityType is (Core.WorksFree (bs ++ ps.map Prod.fst) 0)
      (cs ++ List.replicate (3 - bs.length / 4) 1) (n + span (ps.map fun p => (p.1, d + p.2))) := by
  have hlen := hr.length
  induction ps generalizing bs cs n with
  | nil => exact absurd rfl hps
  | cons p ps ih =>
    simp only [List.map_cons, List.length_append, List.length_cons, List.length_map] at hlen
    obtain ⟨-, hgiven, hquiet, hrest⟩ := hshows
    rw [List.map_cons] at hr ⊢
    rw [← List.singleton_append, ← List.append_assoc] at hr ⊢
    cases ps with
    | nil =>
      have hbs : bs.length + 1 = 12 := hlen
      rw [List.map_nil, List.append_nil] at hr ⊢
      rw [show 3 - bs.length / 4 = 1 by omega]
      exact h.gatherLast hC hC' hbs hr hgiven (Nat.le_trans hd (Nat.le_add_right d p.2)) hquiet
    | cons q qs =>
      have hbs : bs.length + 1 < 12 := by simp only [List.length_cons] at hlen; omega
      have hnext := ih (List.cons_ne_nil q qs)
        (h.gather hC hC' hbs hgiven (by omega) hquiet) hr hrest
        (by simpa using hr.length)
      have hacks : (if (bs.length + 1) % 4 = 0 then [(1 : Byte)] else []) ++
          List.replicate (3 - (bs.length + 1) / 4) 1 = List.replicate (3 - bs.length / 4) 1 := by
        split_ifs with h4
        · rw [show 3 - bs.length / 4 = 3 - (bs.length + 1) / 4 + 1 by omega]
          rfl
        · rw [show (bs.length + 1) / 4 = bs.length / 4 by omega]
          rfl
      rw [List.append_assoc cs, List.length_append, List.length_singleton, hacks,
        Nat.add_assoc] at hnext
      exact hnext

/-- Any number of polls. -/
theorem Free.polls {r : Request} {op : Op} {x y : Word} (hr : r.Asks op x y) {gs : List ℕ}
    (h : Free C parityType is (Core.WorksFree r 0) cs n)
    (hshows : Shows (given? is) n (gs.map fun g => (0xff, d + g))) :
    Free C parityType is (Core.WorksFree r 0) (cs ++ List.replicate gs.length 1)
      (n + span (gs.map fun g => ((0xff : Byte), d + g))) := by
  induction gs generalizing cs n with
  | nil => simpa using h
  | cons g gs ih =>
    obtain ⟨-, hgiven, hquiet, hrest⟩ := hshows
    have hnext := ih (h.poll hC hC' hr hgiven (by omega) hquiet) hrest
    rwa [List.append_assoc, Nat.add_assoc] at hnext

end Exchanges

end NiceTx

/-- A request for an operation, polls, and the read command, each byte with the extra clocks of high
level after it. -/
structure Exchange where
  op : Op
  x : Word
  y : Word
  request : List (Byte × ℕ)
  asks : Request.Asks (request.map Prod.fst) op x y
  polls : List ℕ
  pause : ℕ

namespace Exchange

variable (e : Exchange)

/-- What the host sends. -/
def sent : List (Byte × ℕ) := e.request ++ e.polls.map (0xff, ·) ++ [(0x00, e.pause)]

/-- What it gets: three acknowledgements, an answer to each poll, and the reply. -/
def answers : List Byte :=
  List.replicate 3 1 ++ List.replicate e.polls.length 1 ++ e.op.reply e.x e.y

end Exchange

namespace NiceTx

section Serves

variable {C parityType : ℕ} {is : ℕ → Byte × Bool} {cs : List Byte} {n d : ℕ} (hC : 8 ≤ C)
  (hC' : C ≤ 65536) (hd : 9 * C + C / 2 + 6 ≤ d)
include hC hC' hd

theorem Free.exchange (e : Exchange) (hpause : 5 * (9 * C + C / 2 + 5) + 2 ≤ d + e.pause)
    (h : Free C parityType is (Core.Gathers []) cs n)
    (hshows : Shows (given? is) n (e.sent.map fun p => (p.1, d + p.2))) :
    Free C parityType is (Core.Gathers []) (cs ++ e.answers)
      (n + span (e.sent.map fun p => (p.1, d + p.2))) := by
  have hne : e.request ≠ [] := by
    intro hnil
    have hlen := e.asks.length
    rw [hnil] at hlen
    cases hlen
  simp only [Exchange.sent, List.map_append, List.map_map, Function.comp_def, List.map_cons,
    List.map_nil, shows_append, span_append, span_cons, span_nil] at hshows ⊢
  obtain ⟨⟨hrequest, hpolls⟩, -, hread, hquiet, -⟩ := hshows
  have hworks := h.request hC hC' hd hne e.asks hrequest
  have hpolled := hworks.polls hC hC' hd e.asks hpolls
  rw [Nat.add_assoc] at hpolled
  have hdone := hpolled.read hC hC' e.asks hread hpause hquiet
  simp only [Exchange.answers, ← List.append_assoc, ← Nat.add_assoc] at hdone ⊢
  exact hdone

/-- Every exchange is answered, in order, when there is a pause for the reply after each. -/
theorem Free.exchanges {es : List Exchange}
    (hpause : ∀ e ∈ es, 5 * (9 * C + C / 2 + 5) + 2 ≤ d + e.pause)
    (h : Free C parityType is (Core.Gathers []) cs n)
    (hshows : Shows (given? is) n ((es.flatMap Exchange.sent).map fun p => (p.1, d + p.2))) :
    Free C parityType is (Core.Gathers []) (cs ++ es.flatMap Exchange.answers)
      (n + span ((es.flatMap Exchange.sent).map fun p => (p.1, d + p.2))) := by
  induction es generalizing cs n with
  | nil => simpa using h
  | cons e es ih =>
    simp only [List.flatMap_cons, List.map_append, span_append, shows_append] at hshows ⊢
    obtain ⟨hfirst, hrest⟩ := hshows
    have hone := h.exchange hC hC' hd e (hpause e List.mem_cons_self) hfirst
    have hall := ih (fun f hf => hpause f (List.mem_cons_of_mem e hf)) hone hrest
    rwa [← Nat.add_assoc, ← List.append_assoc]

end Serves

end NiceTx

namespace UartTop

section Serves

variable {C B : ℕ} (hC : 20 ≤ C) (hC' : C ≤ 65536) (hB : 20 * |(B : ℤ) - C| ≤ C - 16)
  (parityType rest : ℕ) (es : List Exchange)

/-- The line on the way in: at rest, and then the bytes of the exchanges as frames of eight data
bits and at least two stop bits. -/
def rxLine (B rest : ℕ) (es : List Exchange) : List Bool :=
  List.replicate rest true ++
    (es.flatMap Exchange.sent).flatMap fun f => UartRx.frame B f.1 (2 * B + f.2)

theorem given_received (line : ℕ → Bool) (n : ℕ) :
    NiceTx.given? (received C parityType line) n =
      ((UartRx.reset : UartRx (uartTop C parityType)).after line n).done? := by
  rw [← rx_after]
  rfl

theorem length_frames (ps : List (Byte × ℕ)) :
    (ps.flatMap fun f => UartRx.frame B f.1 (2 * B + f.2)).length =
      span (ps.map fun p => (p.1, 11 * B + p.2)) := by
  induction ps with
  | nil => rfl
  | cons f ps ih =>
    have hone : (UartRx.frame B f.1 (2 * B + f.2)).length = 9 * B + (2 * B + f.2) :=
      UartRx.length_frame (p := uartTop B 0)
    rw [List.flatMap_cons, List.length_append, hone, ih, List.map_cons, span_cons]
    omega

theorem length_rxLine : (rxLine B rest es).length =
    rest + span ((es.flatMap Exchange.sent).map fun p => (p.1, 11 * B + p.2)) := by
  rw [rxLine, List.length_append, List.length_replicate, length_frames]

include hC hC' hB

/-- Behind a line that leaves the receiver ready, the core is given the bytes sent, each some clocks
before the end of its frame. -/
theorem given_frames (before : List Bool) (ps : List (Byte × ℕ)) {line : ℕ → Bool}
    (hline : line = extend true (before ++ ps.flatMap fun f => UartRx.frame B f.1 (2 * B + f.2)))
    (hready : UartRx.Ready
      ((UartRx.reset : UartRx (uartTop C parityType)).after line before.length)) :
    (∀ n, before.length < n → n < before.length + (9 * C + C / 2 + 8) →
      NiceTx.given? (received C parityType line) n = none) ∧
    Shows (NiceTx.given? (received C parityType line)) (before.length + (9 * C + C / 2 + 8))
      (ps.map fun p => (p.1, 11 * B + p.2)) ∧
    ∀ n, before.length + (9 * C + C / 2 + 8) + span (ps.map fun p => (p.1, 11 * B + p.2)) ≤ n →
      NiceTx.given? (received C parityType line) n = none := by
  have hframes : ∀ k, line (before.length + k) =
      extend true ((ps.map fun f => (f.1, 2 * B + f.2)).flatMap
        fun f => UartRx.frame B f.1 f.2) k := fun k => by
    rw [hline, extend_append_right, List.flatMap_map]
  have htiming : ∀ f ∈ ps.map fun f => (f.1, 2 * B + f.2),
      UartRx.Timing (uartTop C parityType) B f.2 := fun f hf => by
    obtain ⟨g, -, rfl⟩ := List.mem_map.1 hf
    exact UartRx.timing_skewed hC hB g.2 parityType
  have hsame : ps.map (fun p => (p.1, 11 * B + p.2)) =
      ps.map ((fun f : Byte × ℕ => (f.1, (8 + 1) * B + f.2)) ∘ fun f => (f.1, 2 * B + f.2)) :=
    List.map_congr_left fun f _ => Prod.ext rfl (by simp only [Function.comp_apply]; omega)
  obtain ⟨hearly, hshows, hlate⟩ := UartRx.shows_frames (p := uartTop C parityType)
    (Nat.succ_pos 7) (show 8 < 16 by decide) (show 6 ≤ C by omega) hC' rfl htiming hready hframes
  rw [List.map_map, ← hsame] at hshows hlate
  refine ⟨fun n hlo hhi => ?_, hshows.congr fun k _ => given_received parityType _ k,
    fun n hn => ?_⟩
  · obtain ⟨e, rfl⟩ := Nat.exists_eq_add_of_lt hlo
    rw [given_received]
    exact hearly (e + 1) (Nat.succ_pos e) (show e + 1 < 9 * C + C / 2 + 8 by omega)
  · rw [given_received]
    refine hlate n ?_
    show before.length + (9 * C + C / 2 + 8 + _) ≤ n
    omega

theorem given_rxLine :
    (∀ n < rest + (9 * C + C / 2 + 8),
      NiceTx.given? (received C parityType (extend true (rxLine B rest es))) n = none) ∧
    Shows (NiceTx.given? (received C parityType (extend true (rxLine B rest es))))
      (rest + (9 * C + C / 2 + 8))
      ((es.flatMap Exchange.sent).map fun p => (p.1, 11 * B + p.2)) ∧
    ∀ n, (rxLine B rest es).length + (9 * C + C / 2 + 8) ≤ n →
      NiceTx.given? (received C parityType (extend true (rxLine B rest es))) n = none := by
  have hready : ∀ n ≤ rest, UartRx.Ready ((UartRx.reset : UartRx (uartTop C parityType)).after
      (extend true (rxLine B rest es)) n) := fun n hn =>
    UartRx.ready_reset.after_high (show 4 ≤ C by omega) fun k hk => by
      rw [rxLine, extend_append_left true (by rw [List.length_replicate]; omega),
        extend_replicate]
  obtain ⟨hearly, hshows, hlate⟩ := given_frames hC hC' hB parityType (List.replicate rest true)
    (es.flatMap Exchange.sent) rfl (by
      rw [List.length_replicate]
      exact hready rest (Nat.le_refl rest))
  rw [List.length_replicate] at hearly hshows hlate
  refine ⟨fun n hn => ?_, hshows, fun n hn => hlate n ?_⟩
  · rcases Nat.lt_or_ge rest n with hlt | hge
    · exact hearly n hlt hn
    · rw [given_received]
      exact (hready n hge).done
  · rw [length_rxLine] at hn
    omega

omit hC hB in
/-- What is committed in the end is what the line shows, up to the byte in progress. -/
theorem conveys_total (hC : 8 ≤ C) {line : ℕ → Bool} {total : List Byte} {E : ℕ}
    (hall : ∀ M, E ≤ M →
      (NiceTx.commits C parityType (received C parityType line) M).map Prod.snd = total) (N : ℕ) :
    ∃ words, words <+: total ∧
      Conveys (frame8N1 C) (C / 2 + 4) (txLine C parityType line N) words ∧
      (E ≤ N → words = total) := by
  refine ⟨(NiceTx.commits C parityType (received C parityType line) N).map Prod.snd, ?_, ?_,
    hall N⟩
  · rw [← hall (N + E) (Nat.le_add_left E N)]
    exact (TxPins.offers_prefix _ (Nat.le_add_right N E)).map Prod.snd
  · rw [txLine_eq]
    exact UartTx.conveys_spaced hC hC' (NiceTx.handshake _) N

/-- Between its two lines the board answers every request, poll and read command, in order and with
nothing else.  The sender needs to pause for the replies only. -/
theorem answers_exchanges (hpause : ∀ e ∈ es, 40 * C ≤ e.pause) (N : ℕ) :
    ∃ words, words <+: es.flatMap Exchange.answers ∧
      Conveys (frame8N1 C) (C / 2 + 4) (txLine C parityType (extend true (rxLine B rest es)) N)
        words ∧
      ((rxLine B rest es).length + 10 * C ≤ N → words = es.flatMap Exchange.answers) := by
  obtain ⟨hlo, hhi⟩ := abs_le.1 (show |(B : ℤ) - C| ≤ (C - 16) / 20 by omega)
  obtain ⟨hearly, hshows, hlate⟩ := given_rxLine hC hC' hB parityType rest es
  have hstill : ∀ s, Core.Gathers [] s → Core.Gathers [] (s.step (Core.still false)) :=
    fun _ hs => Core.gathers_still hs (Nat.succ_pos 11) false
  have hfirst : NiceTx.Free C parityType (received C parityType (extend true (rxLine B rest es)))
      (Core.Gathers []) [] 0 := ⟨Core.gathers_reset, UartTx.idle_zero, rfl⟩
  have hbegin := hfirst.wait (by omega) (fun _ => Core.Gathers.oDataValid) hstill (Nat.zero_le _)
    fun k _ hk => hearly k hk
  have hend := hbegin.exchanges (by omega) hC' (show 9 * C + C / 2 + 6 ≤ 11 * B by omega)
    (fun e he => by have := hpause e he; omega) hshows
  have hlen := length_rxLine (B := B) rest es
  refine conveys_total hC' parityType (by omega) (fun M hM => ?_) N
  exact (hend.wait (by omega) (fun _ => Core.Gathers.oDataValid) hstill (by omega)
    fun k hk _ => hlate k (by omega)).commits

end Serves

/-- A request for `P0` of `0x12345678`, a poll and the read command, from a sender five percent
fast. -/
def p0Exchange : Exchange where
  op := .sm3p0
  x := 0x12345678
  y := 0
  request := [0x7b, 0x71, 0, 0, 0x12, 0x34, 0x56, 0x78, 0, 0, 0, 0].map (·, 0)
  asks := ⟨rfl, rfl, by decide, by decide⟩
  polls := [7]
  pause := 34720

theorem answers_exchanges_p0Exchange :
    Conveys (frame8N1 868) 438 (txLine 868 0 (extend true (rxLine 826 2000 [p0Exchange])) 200000)
      [1, 1, 1, 1, 0xd6, 0x68, 0x82, 0x34, 3] := by
  obtain ⟨words, -, hline, hend⟩ := answers_exchanges (C := 868) (B := 826) (by decide) (by decide)
    (by decide) 0 2000 [p0Exchange] (by simp [p0Exchange]) 200000
  have hlen : (rxLine 826 2000 [p0Exchange]).length = 163931 :=
    (length_rxLine 2000 _).trans (by decide)
  have hanswers : [p0Exchange].flatMap Exchange.answers =
      [1, 1, 1, 1, 0xd6, 0x68, 0x82, 0x34, 3] := by decide
  rw [hend (by rw [hlen]; decide), hanswers] at hline
  exact hline

end UartTop

end Vcil.Rtl
