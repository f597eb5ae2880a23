import Mathlib.Data.Fin.VecNotation
import Vcil.Sm4.Nice

/-!
# The SM4 block cipher

The cipher by its recurrences, over infinite sequences of words and without the tables of the
program: the substitution box by inversion in the field of 256 elements, the constants `CK` by the
rule that generates them.

* `sbox`, `tau`, `l`, `l'`: the substitution and the linear parts of the two round functions;
* `keyWord`, `rk`: the sequence of key words, and the round keys; `cell`: the words of a block;
* `encrypt`, `decrypt`, and `decrypt_encrypt`: the one undoes the other;
* `custom3Sm4ks_eq`, `custom3Sm4ed_eq`: the operations of the coprocessor;
* `Computed`, `sm4Nice_computed`: the arrays of `sm4_nice` hold these sequences.
-/

namespace Vcil.Sm4.Standard

open ShiftRegister Loops

/-! ### The substitution box -/

/-- Multiplication by `x` in the field of 256 elements, with
`x^8 = x^7 + x^6 + x^5 + x^4 + x^2 + 1`; bit `i` of a number is the coefficient of `x^i`. -/
def timesX (a : ℕ) : ℕ := bif Nat.ble 128 a then (2 * a) ^^^ 0x1f5 else 2 * a

/-- The product of `a` and the `n` low bits of `b`. -/
def mulBits (a : ℕ) : ℕ → ℕ → ℕ
  | 0, _ => 0
  | n + 1, b => timesX (mulBits a n (b / 2)) ^^^ (b % 2 * a)

def mul (a b : ℕ) : ℕ := mulBits a 8 b

/-- The inverse, with 0 for 0: the power 254. -/
def inv (a : ℕ) : ℕ :=
  let a2 := mul a a
  let a4 := mul a2 a2
  let a8 := mul a4 a4
  let a16 := mul a8 a8
  let a32 := mul a16 a16
  let a64 := mul a32 a32
  mul (mul (mul a2 a4) (mul a8 a16)) (mul (mul a32 a64) (mul a64 a64))

/-- The affine map of the bits: a circulant matrix and a constant. -/
def affine (a : Byte) : Byte :=
  a ^^^ a.rotateRight 1 ^^^ a.rotateRight 2 ^^^ a.rotateRight 5 ^^^ a.rotateRight 7 ^^^ 0xd3

def sbox (a : Byte) : Byte := affine (BitVec.ofNat 8 (inv (affine a).toNat))

/-- The table of the driver. -/
theorem sm4Sbox_eq (a : Byte) : sm4Sbox a = sbox a := by
  revert a
  decide +kernel

/-! ### Round functions -/

/-- The substitution of the four bytes of a word. -/
def tau (x : Word) : Word := Words.beWord 32 ((Words.beBytes 4 x).map sbox)

/-- The linear part in the rounds of a block. -/
def l (x : Word) : Word :=
  x ^^^ x.rotateLeft 2 ^^^ x.rotateLeft 10 ^^^ x.rotateLeft 18 ^^^ x.rotateLeft 24

/-- The linear part in the extension of the key. -/
def l' (x : Word) : Word := x ^^^ x.rotateLeft 13 ^^^ x.rotateLeft 23

theorem sm4Nonlinear_eq (x : Word) : sm4Nonlinear x = tau x := by
  have hbyte : ∀ k, (x >>> k).setWidth 8 = x.extractLsb' k 8 := fun k =>
    BitVec.eq_of_getLsbD_eq fun i _ => by simp
  have h0 : x.setWidth 8 = x.extractLsb' 0 8 := BitVec.setWidth_eq_extractLsb' (by decide)
  have hword := Words.or_shifted (sm4Sbox (x.extractLsb' 24 8)) (sm4Sbox (x.extractLsb' 16 8))
    (sm4Sbox (x.extractLsb' 8 8)) (sm4Sbox (x.extractLsb' 0 8))
  rw [BitVec.shiftLeft_zero] at hword
  rw [sm4Nonlinear, hbyte, hbyte, hbyte, h0, hword]
  simp only [sm4Sbox_eq]
  rfl

theorem custom3Sm4ks_eq (k tk : Word) : custom3Sm4ks k tk = k ^^^ l' (tau tk) := by
  rw [custom3Sm4ks, sm4Linear, if_pos rfl, sm4Nonlinear_eq, sm3Rotl32_eq _ (by decide),
    sm3Rotl32_eq _ (by decide), l']

theorem custom3Sm4ed_eq (x tx : Word) : custom3Sm4ed x tx = x ^^^ l (tau tx) := by
  rw [custom3Sm4ed, sm4Linear, if_neg (by decide), if_pos rfl, sm4Nonlinear_eq,
    sm3Rotl32_eq _ (by decide), sm3Rotl32_eq _ (by decide), sm3Rotl32_eq _ (by decide),
    sm3Rotl32_eq _ (by decide), l]

/-! ### Sequences of words -/

section Sequence

variable (f : ℕ → (Fin 3 → Word) → Word → Word) (start : Fin 4 → Word)

/-- The sequence that begins with four given words and goes on by the rounds `f`. -/
def sequence : ℕ → Word
  | 0 => start 0
  | 1 => start 1
  | 2 => start 2
  | 3 => start 3
  | i + 4 => f i ![sequence (i + 1), sequence (i + 2), sequence (i + 3)] (sequence i)

theorem sequence_start (i : Fin 4) : sequence f start i = start i := by
  match i with
  | 0 => rfl
  | 1 => rfl
  | 2 => rfl
  | 3 => rfl

theorem sequence_runs (n : ℕ) : Runs f n (sequence f start) := by
  intro i _
  have hwindow : window 3 (sequence f start) i =
      ![sequence f start (i + 1), sequence f start (i + 2), sequence f start (i + 3)] := by
    funext k
    match k with
    | 0 => rfl
    | 1 => rfl
    | 2 => rfl
  rw [hwindow]
  rfl

/-- The rounds and the first words determine the sequence. -/
theorem eq_sequence {n : ℕ} {x : ℕ → Word} (hx : Runs f n x) (hstart : ∀ i : Fin 4, x i = start i)
    {j : ℕ} (hj : j < n + 4) : x j = sequence f start j := by
  refine (sequence_runs f start n).unique hx (fun j hj => ?_) (Nat.le_of_lt_succ hj)
  have := hstart ⟨j, by omega⟩
  exact this.trans (sequence_start f start ⟨j, by omega⟩).symm

end Sequence

/-! ### The key -/

def fk : Fin 4 → Word := ![0xa3b1bac6, 0x56aa3350, 0x677d9197, 0xb27022dc]

/-- The constants `CK`: byte `j` of constant `i` is `7 (4 i + j)` modulo 256. -/
def ck (i : ℕ) : Word :=
  Words.beWord 32 ((List.range 4).map fun j => BitVec.ofNat 8 (7 * (4 * i + j)))

/-- The rounds of the extension of the key: `K_i ^ L'(τ(K_{i+1} ^ K_{i+2} ^ K_{i+3} ^ CK_i))`. -/
def keyRound : ℕ → (Fin 3 → Word) → Word → Word := round (fun k tk => k ^^^ l' (tau tk)) ck

/-- The key words `K_i`. -/
def keyWord (mk : Fin 4 → Word) : ℕ → Word := sequence keyRound fun i => mk i ^^^ fk i

/-- The round keys. -/
def rk (mk : Fin 4 → Word) (i : ℕ) : Word := keyWord mk (i + 4)

/-! ### Blocks -/

/-- The rounds of a block: `X_i ^ L(τ(X_{i+1} ^ X_{i+2} ^ X_{i+3} ^ rk_i))`. -/
def blockRound (rk : ℕ → Word) : ℕ → (Fin 3 → Word) → Word → Word :=
  round (fun x tx => x ^^^ l (tau tx)) rk

/-- The words `X_i` of a block. -/
def cell (rk : ℕ → Word) (b : Fin 4 → Word) : ℕ → Word := sequence (blockRound rk) b

/-- 32 rounds, and the last four words in reverse order. -/
def encrypt (rk : ℕ → Word) (b : Fin 4 → Word) : Fin 4 → Word := fun i => cell rk b (35 - i)

/-- Encryption with the round keys in reverse order. -/
def decrypt (rk : ℕ → Word) (b : Fin 4 → Word) : Fin 4 → Word := encrypt (fun i => rk (31 - i)) b

/-- The rounds of the program. -/
theorem round_eq (rk : ℕ → Word) : round custom3Sm4ed rk = blockRound rk := by
  funext i w x
  exact custom3Sm4ed_eq x _

theorem blockRound_reverse (rk : ℕ → Word) :
    reverse (blockRound rk) 32 = blockRound fun i => rk (31 - i) := by
  rw [← round_eq, round_reverse, round_eq]

theorem blockRound_involutive (rk : ℕ → Word) (i : ℕ) (w : Fin 3 → Word) :
    Function.Involutive (blockRound rk i w) := by
  rw [← round_eq]
  exact round_involutive custom3Sm4ed custom3Sm4ed_eq rk i w

/-- The words of a block that is decrypted are those of the encryption read backwards. -/
theorem cell_encrypt (rk : ℕ → Word) (b : Fin 4 → Word) {j : ℕ} (hj : j ≤ 35) :
    cell (fun i => rk (31 - i)) (encrypt rk b) j = cell rk b (35 - j) := by
  have hback : Runs (reverse (blockRound rk) 32) 32
      (cell (fun i => rk (31 - i)) (encrypt rk b)) := by
    rw [blockRound_reverse]
    exact sequence_runs _ _ 32
  exact (sequence_runs (blockRound rk) b 32).undone (fun i _ => blockRound_involutive rk i) hback
    (fun j hj => sequence_start _ (encrypt rk b) ⟨j, by omega⟩) hj

/-- With any round keys whatever, decryption undoes encryption. -/
theorem decrypt_encrypt (rk : ℕ → Word) (b : Fin 4 → Word) : decrypt rk (encrypt rk b) = b := by
  funext i
  have := i.isLt
  rw [decrypt, encrypt, cell_encrypt rk b (by omega), show 35 - (35 - (i : ℕ)) = i by omega]
  exact sequence_start _ b i

/-! ### The program -/

/-- The arrays hold the words of the cipher, for the key `mk` and the block `b`: the last four words
of `X` are the encrypted block, and the last four of `Y` the block, both backwards. -/
structure Computed (mk b : Fin 4 → Word) (s : Sm4Arrays) : Prop where
  keyWords : ∀ i < 36, s.k.getD i 0 = keyWord mk i
  roundKeys : ∀ i < 32, s.rk.getD i 0 = rk mk i
  encryption : ∀ i < 36, s.x.getD i 0 = cell (rk mk) b i
  decryption : ∀ i < 36, s.y.getD i 0 = cell (fun i => rk mk (31 - i)) (encrypt (rk mk) b) i
  encrypted : ∀ i : Fin 4, s.x.getD (35 - i) 0 = encrypt (rk mk) b i
  decrypted : ∀ i : Fin 4, s.y.getD (35 - i) 0 = b i

theorem sm4Fk_eq (i : Fin 4) : sm4Fk.getD i 0 = fk i := by
  revert i
  decide

theorem sm4Ck_eq {i : ℕ} (hi : i < 32) : sm4Ck.getD i 0 = ck i := by
  revert i
  decide +kernel

/-- The loop that extends the key: the array `K` by itself, and `rk` as the end of it. -/
theorem extendKey_eq (key : List Word) :
    (extendKey custom3Sm4ks key).k =
        forLoop 0 32 (fun i k => k.set (i + 4) (custom3Sm4ks (k.getD i 0)
          (k.getD (i + 1) 0 ^^^ k.getD (i + 2) 0 ^^^ k.getD (i + 3) 0 ^^^ sm4Ck.getD i 0)))
          (forLoop 0 4 (fun i k => k.set i (key.getD i 0 ^^^ sm4Fk.getD i 0))
            (List.replicate 36 0)) ∧
      ∀ i < 32, (extendKey custom3Sm4ks key).rk.getD i 0 =
        (extendKey custom3Sm4ks key).k.getD (i + 4) 0 := by
  rw [extendKey]
  generalize forLoop 0 4 (fun i k => k.set i (key.getD i 0 ^^^ sm4Fk.getD i 0))
    (List.replicate 36 0) = k
  constructor
  · refine forLoop_relates (fun (s : KeyState) k => s.k = k) rfl ?_
    rintro i s _ - - rfl
    rfl
  · suffices hall : (forLoop 0 32 (Sm4.keyRound custom3Sm4ks) ⟨k, List.replicate 32 0⟩).rk.length =
        32 ∧ ∀ i < 0 + 32,
          (forLoop 0 32 (Sm4.keyRound custom3Sm4ks) ⟨k, List.replicate 32 0⟩).rk.getD i 0 =
            (forLoop 0 32 (Sm4.keyRound custom3Sm4ks) ⟨k, List.replicate 32 0⟩).k.getD (i + 4) 0 by
      exact hall.2
    refine forLoop_induction (fun j (s : KeyState) => s.rk.length = 32 ∧
      ∀ i < j, s.rk.getD i 0 = s.k.getD (i + 4) 0)
      ⟨List.length_replicate, fun i hi => absurd hi (Nat.not_lt_zero i)⟩ ?_
    rintro j s - hj ⟨hlen, hs⟩
    refine ⟨?_, fun i hi => ?_⟩
    · rw [Sm4.keyRound, List.length_set, hlen]
    · rcases Nat.lt_succ_iff_lt_or_eq.1 hi with hlt | rfl
      · simp only [Sm4.keyRound, List.getD_eq_getElem?_getD,
          List.getElem?_set_ne (show j ≠ i by omega),
          List.getElem?_set_ne (show j + 4 ≠ i + 4 by omega)]
        simpa only [List.getD_eq_getElem?_getD] using hs i hlt
      · simp only [Sm4.keyRound]
        rw [List.getD_eq_getElem?_getD, List.getElem?_set_self (by omega), Option.getD_some]

section Program

variable (mk b : Fin 4 → Word)

theorem getD_ofFn (i : Fin 4) : (List.ofFn b).getD i 0 = b i := by
  rw [List.getD_eq_getElem?_getD, List.getElem?_ofFn, dif_pos i.isLt, Option.getD_some]

theorem k_eq {i : ℕ} (hi : i < 36) :
    (extendKey custom3Sm4ks (List.ofFn mk)).k.getD i 0 = keyWord mk i := by
  rw [(extendKey_eq _).1]
  have hlen : 0 + 4 ≤ (List.replicate 36 (0 : Word)).length := by
    rw [List.length_replicate]
    decide
  set k := forLoop 0 4 (fun i k => k.set i ((List.ofFn mk).getD i 0 ^^^ sm4Fk.getD i 0))
    (List.replicate 36 0) with hk
  have hlen' : 32 + 4 ≤ k.length := by
    rw [hk, length_forLoop_set (fun i => (List.ofFn mk).getD i 0 ^^^ sm4Fk.getD i 0) hlen,
      List.length_replicate]
  obtain ⟨hkept, hround⟩ := forLoop_recurrence 0 (g := fun i k => custom3Sm4ks (k.getD i 0)
    (k.getD (i + 1) 0 ^^^ k.getD (i + 2) 0 ^^^ k.getD (i + 3) 0 ^^^ sm4Ck.getD i 0))
    (fun i ys zs h => by
      rw [h i (by omega), h (i + 1) (by omega), h (i + 2) (by omega), h (i + 3) (by omega)]) hlen'
  generalize forLoop 0 32 _ k = ks at hkept hround ⊢
  have hruns : Runs keyRound 32 fun i => ks.getD i 0 := fun i hi => by
    have hthis : ks.getD (i + 4) 0 = _ := hround i hi
    rw [custom3Sm4ks_eq, sm4Ck_eq hi] at hthis
    exact hthis
  refine eq_sequence keyRound (fun i => mk i ^^^ fk i) hruns (fun i => ?_) hi
  have := i.isLt
  rw [hkept i (by omega), hk,
    getD_forLoop_set (fun i => (List.ofFn mk).getD i 0 ^^^ sm4Fk.getD i 0) 0 hlen,
    if_pos (by omega), getD_ofFn, sm4Fk_eq]

theorem rk_eq {i : ℕ} (hi : i < 32) :
    (extendKey custom3Sm4ks (List.ofFn mk)).rk.getD i 0 = rk mk i := by
  rw [(extendKey_eq _).2 i hi, k_eq mk (by omega), rk]

/-- The loops over a block, on round keys of which only the first 32 count. -/
theorem cryptBlock_eq {load rk rk' : ℕ → Word} (hload : ∀ i : Fin 4, load i = b i)
    (hrk : ∀ i < 32, rk i = rk' i) {i : ℕ} (hi : i < 36) :
    (cryptBlock custom3Sm4ed load rk).getD i 0 = cell rk' b i := by
  obtain ⟨hstart, hruns⟩ := cryptBlock_runs custom3Sm4ed load rk
  generalize cryptBlock custom3Sm4ed load rk = x at *
  have hruns' : Runs (blockRound rk') 32 fun i => x.getD i 0 := fun i hi => by
    have hthis := hruns i hi
    rw [round_eq, blockRound, round, hrk i hi] at hthis
    exact hthis
  exact eq_sequence (blockRound rk') b hruns' (fun i => (hstart i i.isLt).trans (hload i)) hi

/-- `sm4_nice` with the operations of the coprocessor is the cipher. -/
theorem sm4Nice_computed :
    Computed mk b (sm4Nice custom3Sm4ks custom3Sm4ed (List.ofFn mk) (List.ofFn b)) := by
  simp only [sm4Nice]
  have hk : ∀ i < 36, (extendKey custom3Sm4ks (List.ofFn mk)).k.getD i 0 = keyWord mk i :=
    fun i hi => k_eq mk hi
  have hrk : ∀ i < 32, (extendKey custom3Sm4ks (List.ofFn mk)).rk.getD i 0 = rk mk i :=
    fun i hi => rk_eq mk hi
  generalize extendKey custom3Sm4ks (List.ofFn mk) = s at *
  have hx : ∀ i < 36, (cryptBlock custom3Sm4ed (fun i => (List.ofFn b).getD i 0)
      fun i => s.rk.getD i 0).getD i 0 = cell (rk mk) b i :=
    fun i hi => cryptBlock_eq b (getD_ofFn b) hrk hi
  generalize cryptBlock custom3Sm4ed (fun i => (List.ofFn b).getD i 0) (fun i => s.rk.getD i 0) =
    x at *
  have hy : ∀ i < 36, (cryptBlock custom3Sm4ed (fun i => x.getD (35 - i) 0)
      fun i => s.rk.getD (31 - i) 0).getD i 0 =
        cell (fun i => rk mk (31 - i)) (encrypt (rk mk) b) i :=
    fun i hi => cryptBlock_eq (encrypt (rk mk) b) (fun i => hx _ (by omega))
      (fun i hi => hrk _ (by omega)) hi
  generalize cryptBlock custom3Sm4ed (fun i => x.getD (35 - i) 0) (fun i => s.rk.getD (31 - i) 0) =
    y at *
  have hback : ∀ i : Fin 4, y.getD (35 - i) 0 = b i := fun i => by
    rw [hy _ (by omega)]
    exact congrFun (decrypt_encrypt (rk mk) b) i
  exact ⟨hk, hrk, hx, hy, fun i => hx _ (by omega), hback⟩

/-- The key and the block `0123456789abcdeffedcba9876543210`. -/
example :
    (sm4Nice custom3Sm4ks custom3Sm4ed [0x01234567, 0x89abcdef, 0xfedcba98, 0x76543210]
      [0x01234567, 0x89abcdef, 0xfedcba98, 0x76543210]).x.drop 32 =
    [0x536e4246, 0x86b3e94f, 0xd206965e, 0x681edf34] := by
  decide +kernel

end Program

end Vcil.Sm4.Standard
