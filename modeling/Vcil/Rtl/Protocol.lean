import Vcil.Lib.Clocked
import Vcil.Rtl.NiceCoreRuns

/-!
# The protocol of the coprocessor

What a host sees of `nice_core` when it leaves room for every answer: no registers and no clocks,
only bytes in and bytes out.

* `Stage`: where the protocol is between two bytes; `Stage.receive`: one byte;
* `Stage.run`, `Stage.sends`: a list of bytes; `Stage.Paced`: the host leaves the room;
* `resync`, `run_resync`: a list of bytes after which the protocol is at its start, wherever it was.
-/

namespace Vcil.Rtl

open Clocked

/-- Between two bytes there is a part of a request, or the result of one. -/
inductive Stage
  | gathers (bs : {bs : List Byte // bs.length < 12})
  | ready (op : Op) (x y : Word)
  deriving DecidableEq

namespace Stage

/-- Nothing is gathered. -/
def start : Stage := .gathers ⟨[], Nat.succ_pos 11⟩

/-- After at most twelve bytes of a request.  One for no operation is forgotten. -/
def gathered (bs : List Byte) : Stage :=
  if h : bs.length < 12 then .gathers ⟨bs, h⟩
  else match Op.decode (Request.code bs) with
    | some op => .ready op (Request.rs1 bs) (Request.rs2 bs)
    | none => start

/-- The next stage, and the bytes that the coprocessor sends. -/
def receive : Stage → Byte → Stage × List Byte
  | .gathers bs, b =>
    (gathered (bs.1 ++ [b]), if (bs.1.length + 1) % 4 = 0 then [1] else [])
  | .ready op x y, b =>
    if b = 0xff then (.ready op x y, [1])
    else if b = 0x00 then (start, op.reply x y)
    else (.ready op x y, [])

/-- The stage after the bytes. -/
def run (st : Stage) (bs : List Byte) : Stage := Clocked.run (fun st b => (st.receive b).1) st bs

/-- What is sent for the bytes. -/
def sends : Stage → List Byte → List Byte
  | _, [] => []
  | st, b :: bs => (st.receive b).2 ++ (st.receive b).1.sends bs

/-- Each byte comes with the clocks until the next one, and there are `d` for each byte that the
coprocessor sends. -/
def Paced (d : ℕ) : Stage → List (Byte × ℕ) → Prop
  | _, [] => True
  | st, (b, g) :: ps => (st.receive b).2.length * d + 2 ≤ g ∧ (st.receive b).1.Paced d ps

variable {bs cs : List Byte} {op : Op} {x y : Word} {st : Stage}

theorem run_append (st : Stage) (bs cs : List Byte) : st.run (bs ++ cs) = (st.run bs).run cs :=
  Clocked.run_append _ st bs cs

theorem gathered_of_lt (h : bs.length < 12) : gathered bs = .gathers ⟨bs, h⟩ := dif_pos h

theorem gathered_of_asks {r : Request} (hr : r.Asks op x y) : gathered r = .ready op x y := by
  rw [gathered, dif_neg (by rw [hr.length]; decide), hr.decode, hr.rs1, hr.rs2]

theorem gathered_of_length (h : bs.length = 12) :
    gathered bs = start ∨ ∃ op x y, gathered bs = .ready op x y := by
  rw [gathered, dif_neg (by omega)]
  cases Op.decode (Request.code bs) with
  | none => exact Or.inl rfl
  | some op => exact Or.inr ⟨op, _, _, rfl⟩

/-- A request for `P0` of `0x12345678`, a poll and the read command. -/
example : start.sends [0x7b, 0x71, 0, 0, 0x12, 0x34, 0x56, 0x78, 0, 0, 0, 0, 0xff, 0] =
    [1, 1, 1, 1, 0xd6, 0x68, 0x82, 0x34, 3] := by decide

theorem length_sent_le (st : Stage) (b : Byte) :
    (st.receive b).2.length ≤ if b = 0x00 then 5 else 1 := by
  cases st with
  | gathers bs =>
    simp only [receive]
    split_ifs <;> simp
  | ready op x y =>
    have hlen : (op.reply x y).length = 5 := by simp [Op.reply, Words.beBytes]
    simp only [receive]
    split_ifs <;> simp_all

/-- At any stage it is enough to wait for one byte, and for a reply after each `0x00`. -/
theorem paced_of_reads {d : ℕ} {ps : List (Byte × ℕ)} (hone : ∀ p ∈ ps, d + 2 ≤ p.2)
    (hread : ∀ p ∈ ps, p.1 = 0x00 → 5 * d + 2 ≤ p.2) : st.Paced d ps := by
  induction ps generalizing st with
  | nil => trivial
  | cons p ps ih =>
    refine ⟨?_, ih (fun q hq => hone q (List.mem_cons_of_mem p hq))
      fun q hq => hread q (List.mem_cons_of_mem p hq)⟩
    have hlen := length_sent_le st p.1
    split_ifs at hlen with h0
    · exact Nat.le_trans (by gcongr) (hread p List.mem_cons_self h0)
    · have hmul : (st.receive p.1).2.length * d ≤ 1 * d := Nat.mul_le_mul_right d hlen
      have hroom := hone p List.mem_cons_self
      omega

/-! ### Resynchronization -/

/-- The result stays until it is read. -/
theorem run_ready (hbs : ∀ b ∈ bs, b ≠ 0x00) : (ready op x y).run bs = .ready op x y := by
  induction bs with
  | nil => rfl
  | cons b bs ih =>
    have hb : ((ready op x y).receive b).1 = .ready op x y := by
      rw [receive]
      split_ifs with hpoll hread
      · rfl
      · exact absurd hread (hbs b List.mem_cons_self)
      · rfl
    show Stage.run ((ready op x y).receive b).1 bs = _
    rw [hb]
    exact ih fun c hc => hbs c (List.mem_cons_of_mem b hc)

/-- The rest of a request. -/
theorem run_gathers (hlt : bs.length < 12) (hlen : bs.length + cs.length ≤ 12) :
    (gathers ⟨bs, hlt⟩).run cs = gathered (bs ++ cs) := by
  induction cs generalizing bs with
  | nil => rw [List.append_nil, gathered_of_lt hlt]; rfl
  | cons c cs ih =>
    rw [List.length_cons] at hlen
    rw [List.append_cons]
    show Stage.run (gathered (bs ++ [c])) cs = _
    cases cs with
    | nil => rw [List.append_nil]; rfl
    | cons d ds =>
      have hlt' : (bs ++ [c]).length < 12 := by
        rw [List.length_append, List.length_singleton]
        simp only [List.length_cons] at hlen
        omega
      rw [gathered_of_lt hlt']
      exact ih hlt' (by rw [List.length_append, List.length_singleton]; omega)

/-- Twelve times the code of an operation, which only a request that begins at an even place takes
for its own; a byte to change the parity; and twelve times the code again.  So some request is one
for the operation, and the rest is no command.  Then the result is read. -/
def resync : List Byte :=
  (List.replicate 12 [0x7b, 0x71]).flatten ++ [0x71] ++ (List.replicate 12 [0x7b, 0x71]).flatten ++
    [0x00]

/-- Whatever part of whatever request is there, the protocol is at its start afterwards. -/
theorem run_resync (st : Stage) : st.run resync = start := by
  have hread (op : Op) (x y : Word) {n : ℕ} (hn : n ≤ 49) :
      (ready op x y).run (resync.drop n) = start := by
    have hsplit : resync.drop n = (resync.take 49).drop n ++ [0x00] := by
      interval_cases n <;> rfl
    rw [hsplit, run_append, run_ready]
    · rfl
    · intro b hb
      have hall : ∀ b ∈ resync.take 49, b ≠ 0x00 := by decide
      exact hall b (List.mem_of_mem_drop hb)
  cases st with
  | ready op x y => exact hread op x y (Nat.zero_le 49)
  | gathers bs =>
    obtain ⟨bs, hlt⟩ := bs
    have hlen : (resync.take (12 - bs.length)).length = 12 - bs.length := by
      rw [List.length_take]
      exact Nat.min_eq_left ((Nat.sub_le 12 _).trans (by decide))
    have hrun : (gathers ⟨bs, hlt⟩).run resync =
        (gathered (bs ++ resync.take (12 - bs.length))).run (resync.drop (12 - bs.length)) := by
      rw [← run_gathers hlt (by omega), ← run_append, List.take_append_drop]
    rw [hrun]
    have hfull : (bs ++ resync.take (12 - bs.length)).length = 12 := by
      rw [List.length_append]
      omega
    rcases gathered_of_length hfull with hstart | ⟨op, x, y, hready⟩
    · rw [hstart]
      have hall : ∀ k : Fin 12, start.run (resync.drop (12 - k)) = start := by decide
      exact hall ⟨bs.length, hlt⟩
    · rw [hready]
      exact hread op x y (by omega)

end Stage

end Vcil.Rtl
