import Mathlib.Tactic.Set
import Vcil.Host.NiceUart
import Vcil.Host.Bridge

/-!
# Replies that arrive in pieces

The read loops of both drivers break at the first `read()` whose count, taken as an unsigned
number, is positive.  That is the first one that does not return 0: a short read and an error
break the loop as well.

* `FirstWhole`: the first result that is not 0 has all five bytes;
* `Complete`: a call used the whole reply, its last `read()` did not fail, and it delivers the
  word in the first four bytes;
* `complete_iff_firstWhole`: the calls of both drivers are complete exactly then.
-/

namespace Vcil.Host

/-- The first `read()` that does not return 0 returns five bytes. -/
def FirstWhole (rs : List ReadResult) : Prop :=
  ∀ r, (rs.dropWhile (· = some [])).head? = some r → ReadResult.count r = 5

/-- The results a call used, all but `rest`, delivered the whole reply without failing, and `word`
is the big-endian word of its first four bytes. -/
def Complete (reply : Vector Byte 5) (rs rest : List ReadResult) (word : Word) : Prop :=
  ∃ used, rs = used ++ rest ∧ delivered used = reply.toList ∧ none ∉ used ∧
    word = Words.beWord 32 (reply.toList.take 4)

section Split

variable {reply : Vector Byte 5} {rs rest : List ReadResult} {r : ReadResult}

/-- A read of five bytes returns the whole reply. -/
theorem eq_reply (h : Splits reply rs) {skipped : List ReadResult}
    (hrs : rs = skipped ++ r :: rest) (hskipped : ∀ x ∈ skipped, x = some [])
    (hr : r.count = 5) : r = some reply.toList := by
  obtain ⟨hpre, -⟩ := h
  cases r with
  | none => cases hr
  | some bs =>
    have hlen : bs.length = 5 := Int.ofNat_inj.1 hr
    have hbs : bs <+: reply.toList := by
      refine List.IsPrefix.trans ?_ hpre
      rw [hrs, delivered_append, delivered_skipped hskipped, List.nil_append]
      exact ⟨delivered rest, rfl⟩
    rw [hbs.eq_of_length (by simp [hlen])]

/-- A call that breaks at `r` is complete exactly when `r` has all five bytes. -/
theorem complete_iff (h : Splits reply rs) (hdrop : rs.dropWhile (· = some []) = r :: rest)
    (word : Word) (hword : r = some reply.toList → word = Words.beWord 32 (reply.toList.take 4)) :
    Complete reply rs rest word ↔ r.count = 5 := by
  obtain ⟨skipped, hrs, hskipped, -⟩ := dropWhile_eq_cons hdrop
  constructor
  · rintro ⟨used, hused, hdel, hnone, -⟩
    have hsame : used = skipped ++ [r] := by
      have : used ++ rest = (skipped ++ [r]) ++ rest := by rw [← hused, hrs]; simp
      exact List.append_cancel_right this
    rw [hsame, delivered_append, delivered_skipped hskipped, List.nil_append] at hdel
    cases r with
    | none => exact absurd (hsame ▸ List.mem_append_right _ List.mem_cons_self) hnone
    | some bs =>
      have hbs : bs = reply.toList := by simpa [delivered] using hdel
      simp [ReadResult.count, hbs]
  · intro hr
    have hreply := eq_reply h hrs hskipped hr
    refine ⟨skipped ++ [r], by simp [hrs], ?_, ?_, hword hreply⟩
    · rw [delivered_append, delivered_skipped hskipped, hreply]
      simp [delivered]
    · intro hnone
      rcases List.mem_append.1 hnone with hmem | hmem
      · cases hskipped none hmem
      · rw [hreply] at hmem
        cases List.mem_singleton.1 hmem

end Split

theorem replyWord_toList (reply : Vector Byte 5) :
    replyWord reply = Words.beWord 32 (reply.toList.take 4) := by
  have heta : reply = #v[reply[0], reply[1], reply[2], reply[3], reply[4]] := by
    ext i hi
    have hcases : i = 0 ∨ i = 1 ∨ i = 2 ∨ i = 3 ∨ i = 4 := by omega
    rcases hcases with rfl | rfl | rfl | rfl | rfl <;> rfl
  rw [heta, replyWord_eq]
  rfl

/-! ### The two drivers -/

section Drivers

variable {reply : Vector Byte 5} {rs : List ReadResult}

/-- A call of `nice.h` breaks at the first result that is not 0. -/
theorem NiceUart.transact_eq (u : NiceUart) (req : Vector Byte 10) (h : Splits reply rs) :
    u.transact req rs =
      match rs.dropWhile (· = some []) with
      | [] => none
      | r :: rest => some (((u.send req).resume r).1.finish, rest) := by
  rw [transact, await_eq]
  · cases rs.dropWhile (· = some []) <;> rfl
  · intro s
    simp [resume, nread_zero]
  · intro s r
    simp [resume]
  · intro s r hr hne
    exact decide_eq_true ((nread_pos (w := 32) (by decide) (h.2 r hr)).2 hne)

theorem Progress.run_of_wait_none {p : Progress} (hw : p.wait = none) :
    p.run rs = some (p.bridge, rs) := by
  cases rs with
  | nil => rw [run, hw]; rfl
  | cons r rs => rw [run, hw]

/-- The loop of a write to `0x10` breaks at the first result that is not 0. -/
theorem Progress.run_reply {p : Progress} (hw : p.wait = some .reply)
    (hsize : ∀ r ∈ rs, ReadResult.count r ≤ 5) :
    p.run rs =
      match rs.dropWhile (· = some []) with
      | [] => none
      | r :: rest => some ((p.bridge.resume .reply r).bridge, rest) := by
  induction rs generalizing p with
  | nil => rw [run, hw]; rfl
  | cons r rs ih =>
    have hrun : p.run (r :: rs) = (p.bridge.resume .reply r).run rs := by rw [run, hw]
    rw [hrun]
    by_cases hr : r = some []
    · subst hr
      have hskip : p.bridge.resume .reply (some []) =
          ⟨{ p.bridge with nread := 0 }, [], some .reply⟩ := by
        simp [Bridge.resume, nread_zero]
      rw [List.dropWhile_cons_of_pos (by simp), hskip]
      exact ih rfl fun r hr => hsize r (List.mem_cons_of_mem _ hr)
    · have hpos : 0 < Host.nread 8 r :=
        (nread_pos (Nat.le_refl 8) (hsize r List.mem_cons_self)).2 hr
      have hbreak : (p.bridge.resume .reply r).wait = none := by
        rw [Bridge.resume, if_pos hpos]
      rw [List.dropWhile_cons_of_neg (by simpa using hr), run_of_wait_none hbreak]

theorem Bridge.readBuff_resume (br : Bridge) (r : ReadResult) :
    (br.resume .reply r).bridge.readBuff = r.store br.readBuff := by
  unfold Bridge.resume
  dsimp only
  split <;> rfl

/-- What a call owes its caller: if it returns, it has used the whole reply, and the word and the
cycle count are the reply's. -/
def CallComplete (reply : Vector Byte 5) (rs : List ReadResult)
    (result : Option ((Word × NiceUart) × List ReadResult)) : Prop :=
  ∀ word u rest, result = some ((word, u), rest) →
    Complete reply rs rest word ∧ u.cycles = replyCycles reply

/-- What a write to `0x10` owes: if it returns, it has used the whole reply, and a read of `0x14`
gives the reply's word. -/
def WriteComplete (reply : Vector Byte 5) (rs : List ReadResult)
    (result : Option (Bridge × List ReadResult)) : Prop :=
  ∀ br rest, result = some (br, rest) → ∀ data, Complete reply rs rest (br.sm4Read 0x14 data)

theorem callComplete_iff (u : NiceUart) (req : Vector Byte 10) (h : Splits reply rs) :
    CallComplete reply rs (u.transact req rs) ↔ FirstWhole rs := by
  rw [u.transact_eq req h]
  cases hdrop : rs.dropWhile (· = some []) with
  | nil => simp [CallComplete, FirstWhole, hdrop]
  | cons r rest =>
    obtain ⟨skipped, hrs, hskipped, -⟩ := dropWhile_eq_cons hdrop
    have hbuff : r = some reply.toList → ((u.send req).resume r).1.readBuff = reply := by
      rintro rfl
      exact store_toList _ _
    have hiff := complete_iff h hdrop ((u.send req).resume r).1.finish.1 fun hr => by
      rw [NiceUart.finish, hbuff hr, replyWord_toList]
    have hfirst : FirstWhole rs ↔ ReadResult.count r = 5 := by simp [FirstWhole, hdrop]
    rw [hfirst]
    constructor
    · intro hcall
      exact hiff.1 (hcall _ _ _ rfl).1
    · rintro hr word u' rest' heq
      simp only [Option.some.injEq, Prod.mk.injEq] at heq
      obtain ⟨⟨rfl, rfl⟩, rfl⟩ := heq
      refine ⟨hiff.2 hr, ?_⟩
      show ((u.send req).resume r).1.readBuff[4] = reply[4]
      rw [hbuff (eq_reply h hrs hskipped hr)]

theorem writeComplete_iff (br : Bridge) (data : Word) (h : Splits reply rs) :
    WriteComplete reply rs (br.write 0x10 data rs) ↔ FirstWhole rs := by
  rw [Bridge.write, Progress.run_reply rfl h.2]
  cases hdrop : rs.dropWhile (· = some []) with
  | nil => simp [WriteComplete, FirstWhole, hdrop]
  | cons r rest =>
    obtain ⟨skipped, hrs, hskipped, -⟩ := dropWhile_eq_cons hdrop
    set br' := ((br.sm4Write 0x10 data).bridge.resume .reply r).bridge with hbr'
    have hbuff : r = some reply.toList → br'.readBuff = reply := by
      rintro rfl
      rw [hbr', Bridge.readBuff_resume, store_toList]
    have hiff := complete_iff h hdrop (replyWord br'.readBuff) fun hr => by
      rw [hbuff hr, replyWord_toList]
    have hfirst : FirstWhole rs ↔ ReadResult.count r = 5 := by simp [FirstWhole, hdrop]
    rw [hfirst, ← hiff]
    constructor
    · intro hwrite
      exact hwrite _ _ rfl 0
    · rintro hr br'' rest' heq d
      simp only [Option.some.injEq, Prod.mk.injEq] at heq
      obtain ⟨rfl, rfl⟩ := heq
      exact hr

end Drivers

/-! ### Main result -/

/-- For every reply, however it arrives, and for every call of either driver: the call is complete
if and only if the first `read()` that does not return 0 returns all five bytes. -/
theorem complete_iff_firstWhole (reply : Vector Byte 5) (rs : List ReadResult)
    (h : Splits reply rs) :
    (∀ (u : NiceUart) (op : Op) (x y : Word),
      CallComplete reply rs (u.call op x y rs) ↔ FirstWhole rs) ∧
    (∀ (br : Bridge) (data : Word),
      WriteComplete reply rs (br.write 0x10 data rs) ↔ FirstWhole rs) := by
  constructor
  · intro u op x y
    rw [u.call_eq_transact]
    exact callComplete_iff u _ h
  · intro br data
    exact writeComplete_iff br data h

/-- A reply in two pieces: the first piece counts as the whole of it. -/
theorem complete_iff_firstWhole_split :
    (∀ (u : NiceUart) (op : Op) (x y : Word),
      CallComplete #v[0x12, 0x34, 0x56, 0x78, 3] [some [0x12], some [0x34, 0x56, 0x78, 3]]
          (u.call op x y [some [0x12], some [0x34, 0x56, 0x78, 3]]) ↔
        FirstWhole [some [0x12], some [0x34, 0x56, 0x78, 3]]) ∧
    (∀ (br : Bridge) (data : Word),
      WriteComplete #v[0x12, 0x34, 0x56, 0x78, 3] [some [0x12], some [0x34, 0x56, 0x78, 3]]
          (br.write 0x10 data [some [0x12], some [0x34, 0x56, 0x78, 3]]) ↔
        FirstWhole [some [0x12], some [0x34, 0x56, 0x78, 3]]) :=
  complete_iff_firstWhole #v[0x12, 0x34, 0x56, 0x78, 3] [some [0x12], some [0x34, 0x56, 0x78, 3]]
    (by unfold Splits; decide)

/-- A call returns with one reply byte, and a register write with none. -/
theorem incomplete_calls :
    (Splits #v[0x12, 0x34, 0x56, 0x78, 3] [some [0x12]] ∧
      ¬CallComplete #v[0x12, 0x34, 0x56, 0x78, 3] [some [0x12]]
        (NiceUart.init.call .sm3p0 0x12345678 0 [some [0x12]])) ∧
    (Splits #v[0x12, 0x34, 0x56, 0x78, 3] [none] ∧
      ¬WriteComplete #v[0x12, 0x34, 0x56, 0x78, 3] [none]
        (Bridge.init.write 0x10 0 [none])) := by
  refine ⟨⟨by unfold Splits; decide, fun h => ?_⟩, ⟨by unfold Splits; decide, fun h => ?_⟩⟩
  · have hcycles := (h _ _ _ rfl).2
    revert hcycles
    decide
  · obtain ⟨used, hused, -, hnone, -⟩ := h _ _ rfl 0
    rw [List.append_nil] at hused
    exact hnone (hused ▸ List.mem_cons_self)

end Vcil.Host
