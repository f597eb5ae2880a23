import Vcil.Crypto.Software
import Vcil.Lib.Loops
import Vcil.Lib.ShiftRegister

/-!
# The SM4 program of the guest

`sm4_nice` of `insn.c` (and of `sm4.h`): key extension, encryption of one block and decryption of
the result, with the coprocessor's `custom3_sm4ks` and `custom3_sm4ed`, which are parameters here.

* `extendKey`, `cryptBlock`: its loops, `sm4Nice`: the arrays in which it ends;
* `cryptBlock_runs`: the words of a block are those of a shift register that makes 32 rounds;
* `sm4Nice_decrypts`: the third array is the second one read backwards.
-/

namespace Vcil.Sm4

open Loops ShiftRegister

/-- The array `SM4_FK`. -/
def sm4Fk : List Word := [0xA3B1BAC6, 0x56AA3350, 0x677D9197, 0xB27022DC]

/-- The array `SM4_CK`. -/
def sm4Ck : List Word := [
    0x00070e15, 0x1c232a31, 0x383f464d, 0x545b6269, 0x70777e85, 0x8c939aa1, 0xa8afb6bd, 0xc4cbd2d9,
    0xe0e7eef5, 0xfc030a11, 0x181f262d, 0x343b4249, 0x50575e65, 0x6c737a81, 0x888f969d, 0xa4abb2b9,
    0xc0c7ced5, 0xdce3eaf1, 0xf8ff060d, 0x141b2229, 0x30373e45, 0x4c535a61, 0x686f767d, 0x848b9299,
    0xa0a7aeb5, 0xbcc3cad1, 0xd8dfe6ed, 0xf4fb0209, 0x10171e25, 0x2c333a41, 0x484f565d, 0x646b7279]

/-- The arrays of the loop that extends the key. -/
structure KeyState where
  k : List Word
  rk : List Word

/-- The arrays in which `sm4_nice` ends. -/
structure Sm4Arrays extends KeyState where
  x : List Word
  y : List Word

section Program

variable (custom3Sm4ks custom3Sm4ed : Word → Word → Word)

/-- The body of the loop that extends the key. -/
def keyRound (i : ℕ) (s : KeyState) : KeyState :=
  let kTemp := s.k.getD (i + 1) 0 ^^^ s.k.getD (i + 2) 0 ^^^ s.k.getD (i + 3) 0 ^^^ sm4Ck.getD i 0
  let k := s.k.set (i + 4) (custom3Sm4ks (s.k.getD i 0) kTemp)
  { k := k, rk := s.rk.set i (k.getD (i + 4) 0) }

/-- The body of the loops over a block, with the round keys in the order of the loop. -/
def blockRound (rk : ℕ → Word) (i : ℕ) (x : List Word) : List Word :=
  let xTemp := x.getD (i + 1) 0 ^^^ x.getD (i + 2) 0 ^^^ x.getD (i + 3) 0 ^^^ rk i
  x.set (i + 4) (custom3Sm4ed (x.getD i 0) xTemp)

/-- The loops that extend the key. -/
def extendKey (key : List Word) : KeyState :=
  let k := forLoop 0 4 (fun i k => k.set i (key.getD i 0 ^^^ sm4Fk.getD i 0)) (List.replicate 36 0)
  forLoop 0 32 (keyRound custom3Sm4ks) ⟨k, List.replicate 32 0⟩

/-- The two loops over a block: four words are loaded and 32 more computed. -/
def cryptBlock (load rk : ℕ → Word) : List Word :=
  let x := forLoop 0 4 (fun i x => x.set i (load i)) (List.replicate 36 0)
  forLoop 0 32 (blockRound custom3Sm4ed rk) x

/-- `sm4_nice`. -/
def sm4Nice (key cipher : List Word) : Sm4Arrays :=
  let s := extendKey custom3Sm4ks key
  let x := cryptBlock custom3Sm4ed (fun i => cipher.getD i 0) fun i => s.rk.getD i 0
  let y := cryptBlock custom3Sm4ed (fun i => x.getD (35 - i) 0) fun i => s.rk.getD (31 - i) 0
  { s with x := x, y := y }

end Program

section Block

variable (custom3Sm4ed : Word → Word → Word)

/-- A round of a block as one of a shift register of four cells. -/
def round (rk : ℕ → Word) (i : ℕ) (w : Fin 3 → Word) (x : Word) : Word :=
  custom3Sm4ed x (w 0 ^^^ w 1 ^^^ w 2 ^^^ rk i)

/-- The order of the cells in the window does not matter. -/
theorem round_reverse (rk : ℕ → Word) :
    reverse (round custom3Sm4ed rk) 32 = round custom3Sm4ed fun i => rk (31 - i) := by
  funext i w x
  show custom3Sm4ed x (w 2 ^^^ w 1 ^^^ w 0 ^^^ rk (31 - i)) = _
  rw [BitVec.xor_comm (w 2), BitVec.xor_comm _ (w 0), ← BitVec.xor_assoc]
  rfl

theorem round_involutive {F : Word → Word} (hed : ∀ x tx, custom3Sm4ed x tx = x ^^^ F tx)
    (rk : ℕ → Word) (i : ℕ) (w : Fin 3 → Word) :
    Function.Involutive (round custom3Sm4ed rk i w) := by
  intro x
  rw [round, round, hed, hed, BitVec.xor_assoc, BitVec.xor_self, BitVec.xor_zero]

/-- The words of a block: those loaded, and 32 rounds. -/
theorem cryptBlock_runs (load rk : ℕ → Word) :
    (∀ k < 4, (cryptBlock custom3Sm4ed load rk).getD k 0 = load k) ∧
      Runs (round custom3Sm4ed rk) 32 fun k => (cryptBlock custom3Sm4ed load rk).getD k 0 := by
  have hlen : 0 + 4 ≤ (List.replicate 36 (0 : Word)).length := by
    rw [List.length_replicate]
    decide
  have hlen' : 32 + 4 ≤ (forLoop 0 4 (fun i (x : List Word) => x.set i (load i))
      (List.replicate 36 0)).length := by
    rw [length_forLoop_set load hlen, List.length_replicate]
  obtain ⟨hkept, hruns⟩ := forLoop_recurrence 0 (g := fun i x => custom3Sm4ed (x.getD i 0)
    (x.getD (i + 1) 0 ^^^ x.getD (i + 2) 0 ^^^ x.getD (i + 3) 0 ^^^ rk i)) (fun i ys zs h => by
      rw [h i (by omega), h (i + 1) (by omega), h (i + 2) (by omega), h (i + 3) (by omega)]) hlen'
  refine ⟨fun k hk => ?_, hruns⟩
  exact (hkept k hk).trans (by rw [getD_forLoop_set load 0 hlen, if_pos (by omega)])

end Block

section Arrays

variable (custom3Sm4ks custom3Sm4ed : Word → Word → Word) (key cipher : List Word)

/-- Decryption undoes encryption, word by word, whatever the round keys are. -/
theorem sm4Nice_decrypts (F : Word → Word) (hed : ∀ x tx, custom3Sm4ed x tx = x ^^^ F tx) :
    (∀ i < 4, (sm4Nice custom3Sm4ks custom3Sm4ed key cipher).y.getD (35 - i) 0 =
      cipher.getD i 0) ∧
    ∀ k ≤ 35, (sm4Nice custom3Sm4ks custom3Sm4ed key cipher).y.getD k 0 =
      (sm4Nice custom3Sm4ks custom3Sm4ed key cipher).x.getD (35 - k) 0 := by
  simp only [sm4Nice]
  generalize extendKey custom3Sm4ks key = s
  obtain ⟨hx, hxruns⟩ := cryptBlock_runs custom3Sm4ed (fun i => cipher.getD i 0)
    fun i => s.rk.getD i 0
  generalize cryptBlock custom3Sm4ed (fun i => cipher.getD i 0) (fun i => s.rk.getD i 0) = x at *
  obtain ⟨hy, hyruns⟩ := cryptBlock_runs custom3Sm4ed (fun i => x.getD (35 - i) 0)
    fun i => s.rk.getD (31 - i) 0
  rw [← round_reverse custom3Sm4ed fun i => s.rk.getD i 0] at hyruns
  have hback : ∀ k ≤ 35, (cryptBlock custom3Sm4ed (fun i => x.getD (35 - i) 0)
      fun i => s.rk.getD (31 - i) 0).getD k 0 = x.getD (35 - k) 0 := fun k hk =>
    hxruns.undone (fun i _ => round_involutive custom3Sm4ed hed _ i) hyruns
      (fun j hj => hy j (by omega)) hk
  refine ⟨fun i hi => ?_, hback⟩
  rw [hback _ (by omega), show 35 - (35 - i) = i by omega, hx i hi]

end Arrays

/-- The program on the operations of the coprocessor. -/
theorem sm4Nice_decrypts_coprocessor :
    let s := sm4Nice custom3Sm4ks custom3Sm4ed [0x01234567, 0x89abcdef, 0xfedcba98, 0x76543210]
      [0x01234567, 0x89abcdef, 0xfedcba98, 0x76543210]
    (∀ i < 4, s.y.getD (35 - i) 0 =
      [0x01234567, 0x89abcdef, 0xfedcba98, 0x76543210].getD i 0) ∧
    ∀ k ≤ 35, s.y.getD k 0 = s.x.getD (35 - k) 0 :=
  sm4Nice_decrypts custom3Sm4ks custom3Sm4ed _ _ (fun tx => sm4Linear (sm4Nonlinear tx) 1)
    fun _ _ => rfl

end Vcil.Sm4
