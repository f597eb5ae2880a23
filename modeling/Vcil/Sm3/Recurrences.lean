import Vcil.Sm3.Refinement

/-!
# The recurrences of the compression function

`CF_nice` keeps its eight working words in an array, which every round overwrites in place, one
word after the other.  Here the array is modelled as it stands, and what the loop leaves in it is
stated without registers: over the sequences `W_j`, `W'_j`, `A_j` and `E_j`, each term of which is
computed from the four before it.

* `Standard.chain`: the sequences `A` and `E`, from three terms before the first round;
* `Standard.stateAt`: the eight registers as delayed and rotated terms of the two;
* `Standard.rounds_eq_stateAt`: the rounds of the standard compute them;
* `cfRoundArray`, `cfNiceArray`: the loop in place, and `cfNiceArray_toList`;
* `block_recurrences`: expansion and compression of one block.
-/

namespace Vcil.Sm3

open Loops

/-! ### The sequences -/

namespace Standard

/-- The next terms of `A` and `E` in round `j`, from the last four of each, the oldest first. -/
def next (j : ℕ) (w w' : Word) (p q r s : Word × Word) : Word × Word :=
  let ss1 := (s.1.rotateLeft 12 + s.2 + (t j).rotateLeft (j % 32)).rotateLeft 7
  let ss2 := ss1 ^^^ s.1.rotateLeft 12
  let tt1 := ff j s.1 r.1 (q.1.rotateLeft 9) + p.1.rotateLeft 9 + ss2 + w'
  let tt2 := gg j s.2 r.2 (q.2.rotateLeft 19) + p.2.rotateLeft 19 + ss1 + w
  (tt1, p0 tt2)

/-- The terms `A_{j-3}` and `E_{j-3}`, with `A_0` and `E_0` those before the first round. -/
def chain (m : ℕ → Word) (v : Regs) : ℕ → Word × Word
  | 0 => (v.d.rotateRight 9, v.h.rotateRight 19)
  | 1 => (v.c.rotateRight 9, v.g.rotateRight 19)
  | 2 => (v.b, v.f)
  | 3 => (v.a, v.e)
  | j + 4 =>
    next j (expand m j) (expand' m j) (chain m v j) (chain m v (j + 1)) (chain m v (j + 2))
      (chain m v (j + 3))

variable (m : ℕ → Word) (v : Regs)

/-- The sequence `A`, three terms late. -/
def seqA (j : ℕ) : Word := (chain m v j).1

/-- The sequence `E`, three terms late. -/
def seqE (j : ℕ) : Word := (chain m v j).2

/-- The registers before round `n`: `B` to `D` are delayed and rotated terms of `A`, and `F` to
`H` of `E`. -/
def stateAt (n : ℕ) : Regs where
  a := seqA m v (n + 3)
  b := seqA m v (n + 2)
  c := (seqA m v (n + 1)).rotateLeft 9
  d := (seqA m v n).rotateLeft 9
  e := seqE m v (n + 3)
  f := seqE m v (n + 2)
  g := (seqE m v (n + 1)).rotateLeft 19
  h := (seqE m v n).rotateLeft 19

theorem stateAt_zero : stateAt m v 0 = v := by
  have h9 := fun x : Word => Words.rotateLeft_rotateRight x (show 9 < 32 by decide)
  have h19 := fun x : Word => Words.rotateLeft_rotateRight x (show 19 < 32 by decide)
  simp only [stateAt, seqA, seqE, chain, h9, h19]

/-- One round advances both sequences by one term. -/
theorem round_stateAt (n : ℕ) :
    round n (expand m n) (expand' m n) (stateAt m v n) = stateAt m v (n + 1) := by
  have hnext : chain m v (n + 4) = next n (expand m n) (expand' m n) (chain m v n)
      (chain m v (n + 1)) (chain m v (n + 2)) (chain m v (n + 3)) := rfl
  simp only [round, stateAt, seqA, seqE, Nat.add_assoc, Nat.reduceAdd, hnext, next]

theorem rounds_eq_stateAt (n : ℕ) : rounds m v n = stateAt m v n := by
  induction n with
  | zero => exact (stateAt_zero m v).symm
  | succ n ih => rw [rounds, ih, round_stateAt]

end Standard

/-! ### The array -/

/-- The enumeration `type`, which names the entries of an array of eight words. -/
inductive Slot
  | a | b | c | d | e | f | g | h
  deriving DecidableEq, Repr

def Slot.index : Slot → ℕ
  | .a => 0
  | .b => 1
  | .c => 2
  | .d => 3
  | .e => 4
  | .f => 5
  | .g => 6
  | .h => 7

/-- Reading an entry. -/
def Slot.get (x : Slot) (v : List Word) : Word := v.getD x.index 0

/-- Writing an entry. -/
def Slot.set (x : Slot) (w : Word) (v : List Word) : List Word := v.set x.index w

/-- The body of the second loop of `CF_nice`, in place: an entry read after it was written is the
new one. -/
def cfRoundArray (t w68 w64 : List Word) (j : ℕ) (v : List Word) : List Word :=
  let ss1 := sm3Rotl32 (sm3Rotl32 (Slot.a.get v) 12 + Slot.e.get v +
    sm3Rotl32 (t.getD j 0) (j % 32)) 7
  let ss2 := ss1 ^^^ sm3Rotl32 (Slot.a.get v) 12
  let tt1 := ff (Slot.a.get v) (Slot.b.get v) (Slot.c.get v) j + Slot.d.get v + ss2 + w64.getD j 0
  let tt2 := gg (Slot.e.get v) (Slot.f.get v) (Slot.g.get v) j + Slot.h.get v + ss1 + w68.getD j 0
  let v := Slot.d.set (Slot.c.get v) v
  let v := Slot.c.set (sm3Rotl32 (Slot.b.get v) 9) v
  let v := Slot.b.set (Slot.a.get v) v
  let v := Slot.a.set tt1 v
  let v := Slot.h.set (Slot.g.get v) v
  let v := Slot.g.set (sm3Rotl32 (Slot.f.get v) 19) v
  let v := Slot.f.set (Slot.e.get v) v
  Slot.e.set (custom3Sm3p0 tt2) v

/-- `CF_nice`: the array `V` after the call. -/
def cfNiceArray (t v w68 w64 : List Word) : List Word :=
  let vBuf := List.replicate 8 0
  let vBuf := forLoop 0 8 (fun j vBuf => vBuf.set j (v.getD j 0)) vBuf
  let vBuf := forLoop 0 64 (cfRoundArray t w68 w64) vBuf
  forLoop 0 8 (fun j v => v.set j (vBuf.getD j 0 ^^^ v.getD j 0)) v

/-- The array that holds the eight words. -/
def Regs.toList (r : Regs) : List Word := [r.a, r.b, r.c, r.d, r.e, r.f, r.g, r.h]

variable (t w68 w64 : List Word)

/-- No entry is overwritten before its last use. -/
theorem cfRoundArray_toList (j : ℕ) (r : Regs) :
    cfRoundArray t w68 w64 j r.toList = (cfRound t w68 w64 j r).toList := rfl

theorem cfNiceArray_toList (v : Regs) :
    cfNiceArray t v.toList w68 w64 = (cfNice t v w68 w64).toList := by
  have hcopy : forLoop 0 8 (fun j (vBuf : List Word) => vBuf.set j (v.toList.getD j 0))
      (List.replicate 8 0) = v.toList := rfl
  have hrounds : forLoop 0 64 (cfRoundArray t w68 w64) v.toList =
      (forLoop 0 64 (cfRound t w68 w64) v).toList := by
    refine forLoop_relates (fun (xs : List Word) (r : Regs) => xs = r.toList) rfl ?_
    rintro j xs r - - rfl
    exact cfRoundArray_toList t w68 w64 j r
  have hxor : ∀ r : Regs, forLoop 0 8 (fun j (v : List Word) =>
      v.set j (r.toList.getD j 0 ^^^ v.getD j 0)) v.toList = (r.xor v).toList := fun _ => rfl
  simp only [cfNiceArray, hcopy, hrounds, hxor]
  rfl

/-! ### One block -/

/-- For every block and whatever the arrays held before, `message_ext_nice` and `CF_nice` replace
`V` by `V` xor the registers that the recurrences reach in 64 rounds. -/
theorem block_recurrences (block : List Byte) (v : Regs) (w68 w64 : List Word)
    (hblock : 64 ≤ block.length) (h68 : w68.length = 68) (h64 : w64.length = 64) :
    Expanded (Standard.word block) (messageExtNice block w68 w64).1
        (messageExtNice block w68 w64).2 ∧
      cfNiceArray tInit v.toList (messageExtNice block w68 w64).1
          (messageExtNice block w68 w64).2 =
        (v.xor (Standard.stateAt (Standard.word block) v 64)).toList := by
  have hexp := messageExtNice_eq hblock h68 h64
  have hcomm : (Standard.stateAt (Standard.word block) v 64).xor v =
      v.xor (Standard.stateAt (Standard.word block) v 64) := by
    simp only [Regs.xor, BitVec.xor_comm]
  refine ⟨hexp, ?_⟩
  rw [cfNiceArray_toList, cfNice_eq hexp, Standard.compress, Standard.rounds_eq_stateAt, hcomm]

theorem block_recurrences_zeros :
    cfNiceArray tInit iv.toList
        (messageExtNice (List.replicate 64 0) (List.replicate 68 0) (List.replicate 64 0)).1
        (messageExtNice (List.replicate 64 0) (List.replicate 68 0) (List.replicate 64 0)).2 =
      (iv.xor (Standard.stateAt (Standard.word (List.replicate 64 0)) iv 64)).toList :=
  (block_recurrences (List.replicate 64 0) iv (List.replicate 68 0) (List.replicate 64 0)
    (by decide) (by decide) (by decide)).2

end Vcil.Sm3
