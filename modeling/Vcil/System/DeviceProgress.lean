import Vcil.Rtl.NiceCoreService
import Vcil.System.Guest

/-!
# What the board does with what it is sent

The board alone, while the host waits for it.  Every message is answered: a group of four request
bytes with an acknowledgement, a poll with a byte that says whether the result is there, the read
command with the five bytes of the reply.

* `At`, `Incoming`: where the bytes are, with a property of the core;
* `delivers`, `handOver`, `arrives`: one byte on the way down, through the transmitter, and up;
* `acknowledged`, `polled`, `answered`: the three exchanges.
-/

namespace Vcil.System

open Vcil.Rtl Vcil.Rtl.Core Progress.Machine

/-- Nothing is on the way down; the bytes on the way up and at the host are `queue`. -/
structure At (C : Core → Prop) (tx : Option (Byte × ℕ)) (queue : List Byte) (d : Device) :
    Prop where
  core : C d.core
  tx : d.tx = tx
  down : d.down = []
  queue : d.rx ++ d.up = queue

/-- The bytes `bs` are on the way down, and nothing else is under way; the property of the core may
depend on how long the first has been on the line. -/
structure Incoming (C : ℕ → Core → Prop) (bs : List Byte) (d : Device) : Prop where
  core : C d.age d.core
  tx : d.tx = none
  down : d.down = bs
  rx : d.rx = []
  up : d.up = []

section Moves

variable {C C' : Core → Prop} {tx : Option (Byte × ℕ)} {q : List Byte} {d : Device} {n : ℕ}

theorem At.mono (h : At C tx q d) (hC : ∀ s, C s → C' s) : At C' tx q d :=
  ⟨hC _ h.core, h.tx, h.down, h.queue⟩

theorem At.arrive (h : At C tx q d) : At C tx q d.arrive := by
  refine ⟨h.core, h.tx, h.down, ?_⟩
  rw [← h.queue]
  show d.rx ++ d.up.head?.toList ++ d.up.tail = d.rx ++ d.up
  cases d.up <;> simp

theorem At.rx_lt (h : At C tx q d) (hq : q.length < n) : d.rx.length < n := by
  have := congrArg List.length h.queue
  rw [List.length_append] at this
  omega

theorem pins_still (h : d.down = []) (t : Tick) : d.pins 4 t = still d.tx.isSome := by
  have hdel : d.delivery 4 t = none := by
    rw [Device.delivery, h]
    split_ifs <;> rfl
  rw [Device.pins, hdel]
  rfl

/-- A clock in which nothing is under way down. -/
theorem At.clock (h : At C tx q d) (t : Tick) (hC : C' (d.core.step (still tx.isSome))) :
    At C' (d.nextTx 4 t) (q ++ (d.sent 4 t).toList) (d.clock 4 t) := by
  have hdel : d.delivery 4 t = none := by
    rw [Device.delivery, h.down]
    split_ifs <;> rfl
  refine ⟨?_, rfl, ?_, ?_⟩
  · show C' (d.core.step (d.pins 4 t))
    rwa [pins_still h.down, h.tx]
  · show (if (d.delivery 4 t).isSome = true then _ else d.down) = []
    rw [hdel, h.down]
    rfl
  · show d.rx ++ (d.up ++ _) = _
    rw [← List.append_assoc, h.queue]

/-- A clock with nothing under way and nothing offered. -/
theorem At.clock_free (h : At C none q d) (t : Tick) (hvalid : d.core.oDataValid = false)
    (hC : C' (d.core.step (still false))) : At C' none q (d.clock 4 t) := by
  have hnext := h.clock t hC
  have htx : d.nextTx 4 t = none := by
    rw [Device.nextTx, h.tx, hvalid]
    simp
  have hsent : d.sent 4 t = none := by rw [Device.sent, h.tx]
  rwa [htx, hsent, Option.toList_none, List.append_nil] at hnext

/-- A clock with a byte in the transmitter: its frame goes on, or ends. -/
theorem At.clock_busy {b : Byte} {j : ℕ} (h : At C (some (b, j)) q d) (t : Tick)
    (hC : C' (d.core.step (still true))) :
    if t.lower = true ∧ 4 ≤ j + 1 then At C' none (q ++ [b]) (d.clock 4 t)
    else At C' (some (b, j + 1)) q (d.clock 4 t) := by
  have hnext := h.clock t hC
  have hsent : d.sent 4 t = if t.lower = true ∧ 4 ≤ j + 1 then some b else none := by
    rw [Device.sent, h.tx]
  rw [Device.nextTx, h.tx, hsent] at hnext
  by_cases hlower : t.lower = true ∧ 4 ≤ j + 1
  · rw [if_pos hlower] at hnext ⊢
    exact hnext
  · rw [if_neg hlower] at hnext ⊢
    rwa [Option.toList_none, List.append_nil] at hnext

end Moves

/-! ### Rules -/

section Rules

variable {R P Q : Device → Prop}

/-- The rule for a clock of a kind that keeps coming. -/
theorem clock_ensures (k : Kind) (hkind : k ≠ .arrive ∧ k ≠ .host) (hR : ∀ d, P d → R d)
    (hclock : ∀ d t, P d → P (d.clock 4 t) ∨ Q (d.clock 4 t)) (harrive : ∀ d, P d → P d.arrive)
    (hk : ∀ d t, P d → k.Fires (.clock t) → Q (d.clock 4 t)) : (board 4).LeadsTo R P Q := by
  refine LeadsTo.ensures k hR (fun d e hd => ?_) (fun d e hd hfires => ?_)
  · cases e with
    | clock t => exact hclock d t hd
    | arrive => exact Or.inl (harrive d hd)
    | host full kept => exact Or.inl hd
  · cases e with
    | clock t => exact hk d t hd hfires
    | arrive => cases k <;> first | exact absurd rfl hkind.1 | cases hfires
    | host full kept => cases k <;> first | exact absurd rfl hkind.2 | cases hfires

/-- The rule for what any clock brings about. -/
theorem tick_ensures (hR : ∀ d, P d → R d) (hclock : ∀ d t, P d → Q (d.clock 4 t))
    (harrive : ∀ d, P d → P d.arrive) : (board 4).LeadsTo R P Q :=
  clock_ensures .raise ⟨by decide, by decide⟩ hR (fun d t hd => Or.inr (hclock d t hd)) harrive
    fun d t hd _ => hclock d t hd

end Rules

/-! ### One byte -/

section Bytes

variable {n : ℕ} {q : List Byte} {b : Byte}

/-- A byte that the core offers goes through the transmitter. -/
theorem handOver {Hold After : Core → Prop} (hq : q.length < n)
    (hvalid : ∀ s, Hold s → s.oDataValid = true ∧ s.oDataTx = b)
    (hhold : ∀ s, Hold s → Hold (s.step (still false)))
    (htake : ∀ s, Hold s → After (s.step (still true)))
    (hafter : ∀ s, After s → After (s.step (still true))) :
    (board 4).LeadsTo (fun d => d.rx.length < n) (At Hold none q) (At After none (q ++ [b])) := by
  -- the transmitter is raised
  have htaken : (board 4).LeadsTo (fun d => d.rx.length < n) (At Hold none q)
      (At Hold (some (b, 0)) q) := by
    have hclock : ∀ d (t : Tick), At Hold none q d →
        At Hold (if t.raise then some (b, 0) else none) q (d.clock 4 t) := by
      intro d t h
      obtain ⟨hv, hb⟩ := hvalid _ h.core
      have hnext := h.clock t (hhold _ h.core)
      have hsent : d.sent 4 t = none := by rw [Device.sent, h.tx]
      rw [hsent, Option.toList_none, List.append_nil, Device.nextTx, h.tx, hv, hb] at hnext
      simpa using hnext
    refine clock_ensures .raise ⟨by decide, by decide⟩ (fun d h => h.rx_lt hq)
      (fun d t h => ?_) (fun d h => h.arrive) (fun d t h hraise => ?_)
    · have hnext := hclock d t h
      cases ht : t.raise with
      | true => exact Or.inr (by simpa [ht] using hnext)
      | false => exact Or.inl (by simpa [ht] using hnext)
    · have hnext := hclock d t h
      rwa [show t.raise = true from hraise, if_pos rfl] at hnext
  -- the core sees it
  have hreleased : (board 4).LeadsTo (fun d => d.rx.length < n) (At Hold (some (b, 0)) q)
      fun d => ∃ j ≥ 0, At After (some (b, j)) q d := by
    refine tick_ensures (fun d h => h.rx_lt hq) (fun d t h => ⟨1, Nat.zero_le 1, ?_⟩)
      fun d h => h.arrive
    have hnext := h.clock_busy t (htake _ h.core)
    rwa [if_neg fun hlower => absurd hlower.2 (by decide)] at hnext
  -- the frame goes on
  have hclock : ∀ i d (t : Tick), (∃ j ≥ i, At After (some (b, j)) q d) →
      (∃ j ≥ i + 1, At After (some (b, j)) q (d.clock 4 t)) ∨
        At After none (q ++ [b]) (d.clock 4 t) := by
    rintro i d t ⟨j, hj, h⟩
    have hnext := h.clock_busy t (hafter _ h.core)
    split_ifs at hnext
    · exact Or.inr hnext
    · exact Or.inl ⟨j + 1, by omega, hnext⟩
  have hclimb : (board 4).LeadsTo (fun d => d.rx.length < n)
      (fun d => ∃ j ≥ 0, At After (some (b, j)) q d)
      fun d => (∃ j ≥ 3, At After (some (b, j)) q d) ∨ At After none (q ++ [b]) d := by
    refine LeadsTo.climb (P := fun i d => ∃ j ≥ i, At After (some (b, j)) q d) (fun i => ?_) 3
    refine tick_ensures ?_ (fun d t h => hclock i d t h) ?_
    · rintro d ⟨j, -, h⟩
      exact h.rx_lt hq
    · rintro d ⟨j, hj, h⟩
      exact ⟨j, hj, h.arrive⟩
  -- and may end
  have hend : (board 4).LeadsTo (fun d => d.rx.length < n)
      (fun d => ∃ j ≥ 3, At After (some (b, j)) q d) (At After none (q ++ [b])) := by
    refine clock_ensures .lower ⟨by decide, by decide⟩ ?_ (fun d t h => ?_) ?_ ?_
    · rintro d ⟨j, -, h⟩
      exact h.rx_lt hq
    · rcases hclock 3 d t h with ⟨j, hj, hnext⟩ | hnext
      · exact Or.inl ⟨j, by omega, hnext⟩
      · exact Or.inr hnext
    · rintro d ⟨j, hj, h⟩
      exact ⟨j, hj, h.arrive⟩
    · rintro d t ⟨j, hj, h⟩ hlower
      have hnext := h.clock_busy t (hafter _ h.core)
      rwa [if_pos ⟨hlower, by omega⟩] at hnext
  exact htaken.trans (hreleased.trans (hclimb.trans (hend.cases (LeadsTo.of_imp fun _ h => h))))

/-- The bytes on the way up get there. -/
theorem arrives {C : Core → Prop} (hvalid : ∀ s, C s → s.oDataValid = false)
    (hstill : ∀ s, C s → C (s.step (still false))) :
    (board 4).LeadsTo (fun d => d.rx.length < q.length) (At C none q)
      fun d => At C none q d ∧ d.rx = q := by
  have hall : ∀ j, (board 4).LeadsTo (fun d => d.rx.length < q.length)
      (fun d => At C none q d ∧ d.up.length = j) fun d => At C none q d ∧ d.rx = q := by
    refine LeadsTo.descend fun j => ?_
    cases j with
    | zero =>
      refine LeadsTo.of_imp fun d h => Or.inr ⟨h.1, ?_⟩
      have hqueue := h.1.queue
      rwa [List.length_eq_zero_iff.1 h.2, List.append_nil] at hqueue
    | succ j =>
      refine LeadsTo.ensures .arrive ?_ ?_ ?_
      · rintro d ⟨h, hup⟩
        have := congrArg List.length h.queue
        rw [List.length_append] at this
        omega
      · rintro d e ⟨h, hup⟩
        have hup' : d.arrive.up.length = j := by
          show d.up.tail.length = j
          rw [List.length_tail, hup, Nat.add_sub_cancel]
        cases e with
        | clock t =>
          refine Or.inl ⟨h.clock_free t (hvalid _ h.core) (hstill _ h.core), ?_⟩
          show (d.up ++ (d.sent 4 t).toList).length = j + 1
          rw [Device.sent, h.tx, Option.toList_none, List.append_nil, hup]
        | arrive => exact Or.inr (Or.inl ⟨j, Nat.lt_succ_self j, h.arrive, hup'⟩)
        | host full kept => exact Or.inl ⟨h, hup⟩
      · rintro d e ⟨h, hup⟩ hfires
        have hup' : d.arrive.up.length = j := by
          show d.up.tail.length = j
          rw [List.length_tail, hup, Nat.add_sub_cancel]
        cases e with
        | clock t => cases hfires
        | arrive => exact Or.inl ⟨j, Nat.lt_succ_self j, h.arrive, hup'⟩
        | host full kept => cases hfires
  refine (LeadsTo.exists_elim hall).mono (fun d h => ⟨d.up.length, h, rfl⟩) fun _ h => h

theorem Incoming.arrive {C : ℕ → Core → Prop} {bs : List Byte} {d : Device} (h : Incoming C bs d) :
    Incoming C bs d.arrive := by
  refine ⟨h.core, h.tx, h.down, ?_, ?_⟩
  · show d.rx ++ d.up.head?.toList = []
    rw [h.rx, h.up]
    rfl
  · show d.up.tail = []
    rw [h.up]
    rfl

theorem Incoming.at {C : Core → Prop} {d : Device} (h : Incoming (fun _ s => C s) [] d) :
    At C none [] d := ⟨h.core, h.tx, h.down, by rw [h.rx, h.up]; rfl⟩

/-- A clock with a byte on the way down: it is delivered, or ages. -/
theorem Incoming.clock {C : ℕ → Core → Prop} {C' : Core → Prop} {bs : List Byte} {d : Device}
    (h : Incoming C (b :: bs) d) (t : Tick) (hvalid : d.core.oDataValid = false)
    (hwait : C (d.age + 1) (d.core.step (still false)))
    (htake : 3 ≤ d.age → C' (d.core.step (given b))) :
    if t.deliver = true ∧ 4 ≤ d.age + 1 then Incoming (fun _ s => C' s) bs (d.clock 4 t)
    else Incoming C (b :: bs) (d.clock 4 t) ∧ (d.clock 4 t).age = d.age + 1 := by
  have hdel : d.delivery 4 t = if t.deliver = true ∧ 4 ≤ d.age + 1 then some b else none := by
    rw [Device.delivery, h.down]
    rfl
  have htx : d.nextTx 4 t = none := by
    rw [Device.nextTx, h.tx, hvalid]
    simp
  have hup : d.up ++ (d.sent 4 t).toList = [] := by
    rw [Device.sent, h.tx, h.up]
    rfl
  by_cases hd : t.deliver = true ∧ 4 ≤ d.age + 1
  · rw [if_pos hd] at hdel ⊢
    have hpins : d.pins 4 t = given b := by
      rw [Device.pins, hdel, h.tx]
      rfl
    refine ⟨?_, htx, ?_, h.rx, hup⟩
    · show C' (d.core.step (d.pins 4 t))
      rw [hpins]
      exact htake (by omega)
    · show (if (d.delivery 4 t).isSome = true then d.down.tail else _) = bs
      rw [hdel, h.down]
      rfl
  · rw [if_neg hd] at hdel ⊢
    have hpins : d.pins 4 t = still false := by
      rw [Device.pins, hdel, h.tx]
      rfl
    have hage : (d.clock 4 t).age = d.age + 1 := by
      show (if (d.delivery 4 t).isSome = true then 0 else d.age + 1) = d.age + 1
      rw [hdel]
      rfl
    refine ⟨⟨?_, htx, ?_, h.rx, hup⟩, hage⟩
    · rw [hage]
      show C (d.age + 1) (d.core.step (d.pins 4 t))
      rwa [hpins]
    · show (if (d.delivery 4 t).isSome = true then _ else d.down) = b :: bs
      rw [hdel, h.down]
      rfl

/-- A byte reaches the core once its frame is over. -/
theorem delivers {C : ℕ → Core → Prop} {C' : Core → Prop} {bs : List Byte} (hn : 0 < n)
    (hvalid : ∀ a s, C a s → s.oDataValid = false)
    (hwait : ∀ a s, C a s → C (a + 1) (s.step (still false)))
    (htake : ∀ a s, 3 ≤ a → C a s → C' (s.step (given b))) :
    (board 4).LeadsTo (fun d => d.rx.length < n) (Incoming C (b :: bs))
      (Incoming (fun _ s => C' s) bs) := by
  have hR : ∀ {d}, Incoming C (b :: bs) d → d.rx.length < n := fun h => by
    rw [h.rx]
    exact hn
  have hclock : ∀ d (t : Tick), Incoming C (b :: bs) d →
      if t.deliver = true ∧ 4 ≤ d.age + 1 then Incoming (fun _ s => C' s) bs (d.clock 4 t)
      else Incoming C (b :: bs) (d.clock 4 t) ∧ (d.clock 4 t).age = d.age + 1 := fun d t h =>
    h.clock t (hvalid _ _ h.core) (hwait _ _ h.core) fun hage => htake _ _ hage h.core
  -- the clocks of the frame
  have hclimb : (board 4).LeadsTo (fun d => d.rx.length < n)
      (fun d => Incoming C (b :: bs) d ∧ 0 ≤ d.age)
      fun d => (Incoming C (b :: bs) d ∧ 3 ≤ d.age) ∨ Incoming (fun _ s => C' s) bs d := by
    refine LeadsTo.climb (P := fun j d => Incoming C (b :: bs) d ∧ j ≤ d.age) (fun j => ?_) 3
    refine tick_ensures (fun d h => hR h.1) ?_ fun d h => ⟨h.1.arrive, h.2⟩
    rintro d t ⟨h, hj⟩
    have hnext := hclock d t h
    split_ifs at hnext
    · exact Or.inr hnext
    · exact Or.inl ⟨hnext.1, by omega⟩
  have hend : (board 4).LeadsTo (fun d => d.rx.length < n)
      (fun d => Incoming C (b :: bs) d ∧ 3 ≤ d.age) (Incoming (fun _ s => C' s) bs) := by
    refine clock_ensures .deliver ⟨by decide, by decide⟩ (fun d h => hR h.1) ?_
      (fun d h => ⟨h.1.arrive, h.2⟩) ?_
    · rintro d t ⟨h, hage⟩
      have hnext := hclock d t h
      split_ifs at hnext
      · exact Or.inr hnext
      · exact Or.inl ⟨hnext.1, by omega⟩
    · rintro d t ⟨h, hage⟩ hdeliver
      have hnext := hclock d t h
      rwa [if_pos ⟨hdeliver, by omega⟩] at hnext
  exact (hclimb.trans (hend.cases (LeadsTo.of_imp fun _ h => h))).mono
    (fun d h => ⟨h, Nat.zero_le _⟩) fun _ h => h

end Bytes

/-! ### The exchanges -/

section Exchanges

variable {r : Request} {op : Op} {x y : Word}

/-- The core has sent its last reply, and may still have to find out. -/
def Settles (s : Core) : Prop := Gathers [] s ∨ ∃ r, AnswersFree r 5 s

theorem Settles.still {s : Core} (h : Settles s) : Gathers [] (s.step (still false)) := by
  rcases h with h | ⟨r, h⟩
  · exact gathers_still h (by decide) false
  · exact answersFree_end h

theorem Settles.oDataValid {s : Core} (h : Settles s) : s.oDataValid = false := by
  rcases h with h | ⟨r, h⟩
  · exact h.oDataValid
  · exact h.answers.handshake.trans h.stateCount

/-- A core that collects the next group of bytes; before the first group it may still have to
settle. -/
def Collects (bs : List Byte) (age : ℕ) (s : Core) : Prop :=
  Gathers bs s ∨ (bs = [] ∧ age = 0 ∧ Settles s)

/-- A group of four bytes is acknowledged. -/
theorem acknowledged {bs : List Byte} {b0 b1 b2 b3 : Byte} {After : Core → Prop}
    (hbs : bs.length < 12 ∧ bs.length % 4 = 0)
    (hafter : ∀ s, Gathers (bs ++ [b0, b1, b2, b3]) s → After s)
    (hstill : ∀ s busy, After s → After (s.step (still busy)))
    (hvalid : ∀ s, After s → s.oDataValid = false) :
    (board 4).LeadsTo (fun d => d.rx.length < 1) (Incoming (Collects bs) [b0, b1, b2, b3])
      fun d => At After none [1] d ∧ d.rx = [1] := by
  obtain ⟨hlt, hmod⟩ := hbs
  have hgather : ∀ (bs' : List Byte) (b : Byte) (rest : List Byte), bs'.length < 12 →
      (bs'.length + 1) % 4 ≠ 0 → (board 4).LeadsTo (fun d => d.rx.length < 1)
        (Incoming (fun _ s => Gathers bs' s) (b :: rest))
        (Incoming (fun _ s => Gathers (bs' ++ [b]) s) rest) := by
    intro bs' b rest hlen hgroup
    exact delivers Nat.one_pos (fun _ s h => h.oDataValid)
      (fun _ s h => gathers_still h hlen false) (fun _ s _ h => (gathers_given h hlen b).1 hgroup)
  have h0 : (board 4).LeadsTo (fun d => d.rx.length < 1) (Incoming (Collects bs) [b0, b1, b2, b3])
      (Incoming (fun _ s => Gathers (bs ++ [b0]) s) [b1, b2, b3]) := by
    refine delivers Nat.one_pos ?_ ?_ ?_
    · rintro a s (h | ⟨-, -, h⟩)
      · exact h.oDataValid
      · exact h.oDataValid
    · rintro a s (h | ⟨rfl, -, h⟩)
      · exact Or.inl (gathers_still h hlt false)
      · exact Or.inl h.still
    · rintro a s hage (h | ⟨-, rfl, -⟩)
      · exact (gathers_given h hlt b0).1 (by omega)
      · exact absurd hage (by decide)
  have h1 := hgather (bs ++ [b0]) b1 [b2, b3] (by simp; omega) (by simp; omega)
  have h2 := hgather (bs ++ [b0] ++ [b1]) b2 [b3] (by simp; omega) (by simp; omega)
  have hthree : (bs ++ [b0] ++ [b1] ++ [b2]).length = bs.length + 3 := by simp
  have hall : bs ++ [b0] ++ [b1] ++ [b2] ++ [b3] = bs ++ [b0, b1, b2, b3] := by simp
  have h3 : (board 4).LeadsTo (fun d => d.rx.length < 1)
      (Incoming (fun _ s => Gathers (bs ++ [b0] ++ [b1] ++ [b2]) s) [b3])
      (Incoming (fun _ s => Acks (bs ++ [b0, b1, b2, b3]) false s) []) := by
    refine delivers Nat.one_pos (fun _ s h => h.oDataValid)
      (fun _ s h => gathers_still h (by omega) false) (fun _ s _ h => ?_)
    rw [← hall]
    exact (gathers_given h (by omega) b3).2 (by omega)
  have hoffer : (board 4).LeadsTo (fun d => d.rx.length < 1)
      (Incoming (fun _ s => Acks (bs ++ [b0, b1, b2, b3]) false s) [])
      (At (Acks (bs ++ [b0, b1, b2, b3]) true) none []) := by
    refine (LeadsTo.of_imp fun d h => h.at).trans (tick_ensures (fun d h => h.rx_lt Nat.one_pos)
      (fun d t h => ?_) fun d h => h.arrive)
    exact h.clock_free t h.core.oDataValid (acks_free h.core)
  have hsend : (board 4).LeadsTo (fun d => d.rx.length < 1)
      (At (Acks (bs ++ [b0, b1, b2, b3]) true) none []) (At After none ([] ++ [1])) :=
    handOver Nat.one_pos (fun s h => ⟨h.oDataValid, h.2.2.1 rfl⟩) (fun s h => acks_free h)
      (fun s h => hafter _ (acks_busy h)) fun s h => hstill s true h
  exact h0.trans (h1.trans (h2.trans (h3.trans (hoffer.trans (hsend.trans
    (arrives hvalid fun s h => hstill s false h))))))

/-- The core, while a poll is on its way to it: every clock on the line brings the result
nearer. -/
def Expects (r : Request) (n : ℕ) (age : ℕ) (s : Core) : Prop :=
  WorksFree r n s ∧ s.remaining ≤ 9 - age

/-- A poll is answered with 1 if the result is there, and otherwise with 0, and the next time it
is nearer. -/
theorem polled (hr : r.Asks op x y) (n : ℕ) :
    (board 4).LeadsTo (fun d => d.rx.length < 1) (Incoming (Expects r n) [0xff])
      fun d => ∃ (n' : ℕ) (b : Byte), ((b = 1 ∧ n' = 0) ∨ (b = 0 ∧ n' < n)) ∧
        At (WorksFree r n') none [b] d ∧ d.rx = [b] := by
  have hwait : ∀ a s, Expects r n a s → Expects r n (a + 1) (s.step (still false)) := by
    rintro a s ⟨h, hage⟩
    have hnext := worksFree_still hr ⟨h.works, Nat.le_refl _, h.stateCount⟩ false
    have hle := hnext.remaining
    have hn := h.remaining
    exact ⟨⟨hnext.works, by omega, hnext.stateCount⟩, by omega⟩
  have htake : ∀ a s, 3 ≤ a → Expects r n a s → ∃ (n' : ℕ) (b : Byte),
      ((b = 1 ∧ n' = 0) ∨ (b = 0 ∧ n' < n)) ∧ WorksPolled r n' b (s.step (given 0xff)) := by
    rintro a s ha ⟨h, hage⟩
    have hn := h.remaining
    have hidle : s.state ≠ .idle := by
      intro hs
      have hnine : s.remaining = 9 := by rw [Core.remaining, hs]
      omega
    refine ⟨_, _, ?_, worksFree_polled hr h hidle⟩
    by_cases hzero : s.remaining = 0
    · exact Or.inl ⟨if_pos hzero, by omega⟩
    · exact Or.inr ⟨if_neg hzero, by omega⟩
  have hdeliver : (board 4).LeadsTo (fun d => d.rx.length < 1) (Incoming (Expects r n) [0xff])
      (Incoming (fun _ s => ∃ (n' : ℕ) (b : Byte), ((b = 1 ∧ n' = 0) ∨ (b = 0 ∧ n' < n)) ∧
        WorksPolled r n' b s) []) :=
    delivers Nat.one_pos (fun a s h => h.1.works.handshake.trans h.1.stateCount) hwait htake
  have hsend : ∀ (n' : ℕ) (b : Byte), (board 4).LeadsTo (fun d => d.rx.length < 1)
      (At (WorksPolled r n' b) none []) fun d => At (WorksFree r n') none [b] d ∧ d.rx = [b] := by
    intro n' b
    have hstill : ∀ s busy, WorksFree r n' s → WorksFree r n' (s.step (still busy)) :=
      fun s busy h => by
        have hnext := worksFree_still hr h busy
        have hle := hnext.remaining
        exact ⟨hnext.works, by omega, hnext.stateCount⟩
    have hover : (board 4).LeadsTo (fun d => d.rx.length < 1) (At (WorksPolled r n' b) none [])
        (At (WorksFree r n') none ([] ++ [b])) :=
      handOver Nat.one_pos (fun s h => ⟨h.works.handshake.trans h.stateCount, h.oDataTx⟩)
        (fun s h => worksPolled_free hr h) (fun s h => worksPolled_busy hr h)
        fun s h => hstill s true h
    exact hover.trans (arrives (fun s h => h.works.handshake.trans h.stateCount)
      fun s h => hstill s false h)
  refine hdeliver.trans ?_
  rintro d es hfair h
  obtain ⟨n', b, hb, hpolled⟩ := h.core
  have hat : At (WorksPolled r n' b) none [] d := ⟨hpolled, h.at.tx, h.at.down, h.at.queue⟩
  obtain ⟨k, hk, hR⟩ := hsend n' b d es hfair hat
  exact ⟨k, ⟨n', b, hb, hk⟩, hR⟩

/-- The read command is answered with the five bytes of the reply. -/
theorem answered (hr : r.Asks op x y) :
    (board 4).LeadsTo (fun d => d.rx.length < 5) (Incoming (fun _ s => WorksFree r 0 s) [0])
      fun d => At Settles none (op.reply x y) d ∧ d.rx = op.reply x y := by
  have hlen : (op.reply x y).length = 5 := by simp [Op.reply]
  have hstart : (board 4).LeadsTo (fun d => d.rx.length < 5)
      (Incoming (fun _ s => WorksFree r 0 s) [0])
      (Incoming (fun _ s => AnswersFree r 0 s) []) := by
    refine delivers (by decide) (fun _ s h => h.works.handshake.trans h.stateCount)
      (fun _ s h => worksFree_still hr h false) (fun _ s _ h => ?_)
    obtain ⟨hans, hc⟩ := worksFree_read h
    exact ⟨hans, hc⟩
  -- one byte after the other
  have hbyte : ∀ k < 5, (board 4).LeadsTo (fun d => d.rx.length < 5)
      (At (AnswersFree r k) none ((op.reply x y).take k))
      (At (AnswersFree r (k + 1)) none ((op.reply x y).take (k + 1))) := by
    intro k hk
    have hq : ((op.reply x y).take k).length < 5 := by
      rw [List.length_take]
      omega
    obtain ⟨b, hb⟩ : ∃ b, (op.reply x y)[k]? = some b :=
      ⟨_, List.getElem?_eq_getElem (by omega)⟩
    have htake : (op.reply x y).take (k + 1) = (op.reply x y).take k ++ [b] := by
      rw [List.take_add_one, hb]
      rfl
    have hoffer : (board 4).LeadsTo (fun d => d.rx.length < 5)
        (At (AnswersFree r k) none ((op.reply x y).take k))
        (At (AnswersOffered r (k + 1) b) none ((op.reply x y).take k)) :=
      tick_ensures (fun d h => h.rx_lt hq)
        (fun d t h => h.clock_free t (h.core.answers.handshake.trans h.core.stateCount)
          (answersFree_free hr h.core hk hb)) fun d h => h.arrive
    rw [htake]
    exact hoffer.trans (handOver hq
      (fun s h => ⟨h.answers.handshake.trans h.stateCount, h.oDataTx⟩)
      (fun s h => answersOffered_free h) (fun s h => answersOffered_busy h)
      fun s h => answersFree_busy h)
  have hreply : (board 4).LeadsTo (fun d => d.rx.length < 5)
      (At (AnswersFree r 0) none []) (At (AnswersFree r 5) none ((op.reply x y).take 5)) :=
    (hbyte 0 (by decide)).trans ((hbyte 1 (by decide)).trans ((hbyte 2 (by decide)).trans
      ((hbyte 3 (by decide)).trans (hbyte 4 (by decide)))))
  have hup : (board 4).LeadsTo (fun d => d.rx.length < (op.reply x y).length)
      (At Settles none (op.reply x y))
      fun d => At Settles none (op.reply x y) d ∧ d.rx = op.reply x y :=
    arrives (fun s h => h.oDataValid) fun s h => Or.inl h.still
  rw [hlen] at hup
  refine (hstart.mono (fun _ h => h) fun d h => h.at).trans (hreply.trans ?_)
  refine hup.mono (fun d h => ?_) fun _ h => h
  rw [List.take_of_length_le (Nat.le_of_eq hlen)] at h
  exact h.mono fun s hs => Or.inr ⟨r, hs⟩

end Exchanges

end Vcil.System
