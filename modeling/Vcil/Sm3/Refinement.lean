import Mathlib.Tactic.IntervalCases
import Vcil.Sm3.Nice

/-!
# The SM3 program computes the SM3 hash

Loop by loop, the program computes what the standard defines; the padding is the one thing it
gets wrong.

* `messageExtNice_eq`, `cfNice_eq`, `processBlocks_eq`: the expansion of a block, its compression,
  and the loop over the blocks;
* `messageBuf_eq`: the buffer is padded as the standard says, but with the number of zero bytes
  that fills `num` blocks;
* `conforms_iff`: padding, number of blocks and digest are the standard's, except on the messages
  whose length is 55 modulo 64.
-/

namespace Vcil.Sm3

open Loops

/-! ### Rounds -/

theorem sm3Rotl32_eq (x : Word) {n : ℕ} (hn : n < 32) : sm3Rotl32 x n = x.rotateLeft n := by
  rcases Nat.eq_zero_or_pos n with rfl | hpos
  · -- the right shift is by 32, which is a shift by 0
    simp [sm3Rotl32, BitVec.rotateLeft_def, BitVec.ushiftRight_eq_zero]
  · rw [sm3Rotl32, Nat.mod_eq_of_lt hn, Nat.mod_eq_of_lt (by omega)]
    exact Words.shift_or_shift x hn

theorem getD_tInit {j : ℕ} (hj : j < 64) : tInit.getD j 0 = Standard.t j := by
  unfold tInit Standard.t
  rw [getD_forLoop_set (fun _ => 0x7A879D8A) 0 (by simp [length_forLoop_set]),
    getD_forLoop_set (fun _ => 0x79CC4519) 0 (by simp)]
  by_cases h : j < 16
  · rw [if_neg (by omega), if_pos (by omega), if_pos h]
  · rw [if_pos (by omega), if_neg h]

variable (x y z : Word) {j : ℕ}

theorem ff_eq (hj : j < 64) : ff x y z j = Standard.ff j x y z := by
  unfold ff Standard.ff
  by_cases h : j < 16
  · rw [if_pos (by omega), if_pos h]
  · rw [if_neg (by omega), if_pos (by omega), if_neg h]

theorem gg_eq (hj : j < 64) : gg x y z j = Standard.gg j x y z := by
  unfold gg Standard.gg
  by_cases h : j < 16
  · rw [if_pos (by omega), if_pos h]
  · rw [if_neg (by omega), if_pos (by omega), if_neg h]

theorem cfRound_eq (w68 w64 : List Word) (v : Regs) (hj : j < 64) :
    cfRound tInit w68 w64 j v = Standard.round j (w68.getD j 0) (w64.getD j 0) v := by
  unfold cfRound Standard.round Standard.p0
  rw [ff_eq _ _ _ hj, gg_eq _ _ _ hj, getD_tInit hj]
  simp only [custom3Sm3p0_eq, sm3Rotl32_eq _ (show 7 < 32 by decide),
    sm3Rotl32_eq _ (show 9 < 32 by decide), sm3Rotl32_eq _ (show 12 < 32 by decide),
    sm3Rotl32_eq _ (show 19 < 32 by decide), sm3Rotl32_eq _ (Nat.mod_lt j (show 0 < 32 by decide))]

/-! ### One block -/

variable {buf : List Byte} {w68 w64 : List Word}

theorem loadWord_eq (h : 4 * j + 4 ≤ buf.length) : loadWord buf j = Standard.word buf j := by
  have hbyte : ∀ i < 4, buf[4 * j + i]? = some (buf.getD (j * 4 + i) 0) := by
    intro i hi
    rw [Nat.mul_comm j 4, List.getD_eq_getElem?_getD, List.getElem?_eq_getElem (by omega)]
    rfl
  have hbytes : (buf.drop (4 * j)).take 4 = [buf.getD (j * 4 + 0) 0, buf.getD (j * 4 + 1) 0,
      buf.getD (j * 4 + 2) 0, buf.getD (j * 4 + 3) 0] := by
    apply List.ext_getElem?
    intro i
    rcases Nat.lt_or_ge i 4 with hi | hi
    · rw [List.getElem?_take_of_lt hi, List.getElem?_drop, hbyte i hi]
      interval_cases i <;> rfl
    · rw [List.getElem?_eq_none (by simp; omega), List.getElem?_eq_none (by simp; omega)]
  have h0 := fun b => Words.and_shifted_mask b 24
  have h1 := fun b => Words.and_shifted_mask b 16
  have h2 := fun b => Words.and_shifted_mask b 8
  have h3 := fun b => Words.and_shifted_mask b 0
  rw [Standard.word, hbytes, ← Words.or_shifted, ← h0, ← h1, ← h2, ← h3]
  rfl

/-- `W68` and `W64` hold the expanded message, whatever they held before. -/
structure Expanded (m : ℕ → Word) (w68 w64 : List Word) : Prop where
  length68 : w68.length = 68
  length64 : w64.length = 64
  w : ∀ i < 68, w68.getD i 0 = Standard.expand m i
  w' : ∀ i < 64, w64.getD i 0 = Standard.expand' m i

theorem extend_eq {m : ℕ → Word} (hlo : 16 ≤ j) (hhi : j < w68.length)
    (h : ∀ i < j, w68.getD i 0 = Standard.expand m i) :
    ∀ i < j + 1, (extend j w68).getD i 0 = Standard.expand m i := by
  intro i hi
  rw [extend, List.getD_eq_getElem?_getD, List.getElem?_set]
  rcases Nat.lt_succ_iff_lt_or_eq.1 hi with hlt | rfl
  · rw [if_neg (by omega), ← List.getD_eq_getElem?_getD, h i hlt]
  · rw [if_pos rfl, if_pos hhi, h (i - 16) (by omega), h (i - 9) (by omega), h (i - 3) (by omega),
      h (i - 13) (by omega), h (i - 6) (by omega), custom3Sm3p1_eq,
      sm3Rotl32_eq _ (show 15 < 32 by decide), sm3Rotl32_eq _ (show 7 < 32 by decide),
      Standard.expand_of_ge m hlo]
    rfl

/-- The message expansion, whatever the arrays held before. -/
theorem messageExtNice_eq (hbuf : 64 ≤ buf.length) (h68 : w68.length = 68)
    (h64 : w64.length = 64) :
    Expanded (Standard.word buf) (messageExtNice buf w68 w64).1
      (messageExtNice buf w68 w64).2 := by
  simp only [messageExtNice]
  set loaded := forLoop 0 16 (fun j (w68 : List Word) => w68.set j (loadWord buf j)) w68
    with hloaded
  have hlen : loaded.length = 68 := by
    rw [hloaded, length_forLoop_set _ (by omega), h68]
  have hinit : ∀ i < 16, loaded.getD i 0 = Standard.expand (Standard.word buf) i := by
    intro i hi
    rw [hloaded, getD_forLoop_set _ 0 (by omega), if_pos (by omega), loadWord_eq (by omega),
      Standard.expand_of_lt _ hi]
  obtain ⟨hlen68, hw⟩ : (forLoop 16 52 extend loaded).length = 68 ∧ ∀ i < 16 + 52,
      (forLoop 16 52 extend loaded).getD i 0 = Standard.expand (Standard.word buf) i := by
    refine forLoop_induction (fun k (ys : List Word) =>
      ys.length = 68 ∧ ∀ i < k, ys.getD i 0 = Standard.expand (Standard.word buf) i)
      ⟨hlen, hinit⟩ ?_
    rintro k ys hlo hhi ⟨hl, hys⟩
    exact ⟨by simp [extend, hl], extend_eq hlo (by omega) hys⟩
  refine ⟨hlen68, ?_, hw, ?_⟩
  · exact (length_forLoop_set _ (by omega)).trans h64
  · intro i hi
    refine (getD_forLoop_set _ 0 (by omega) i).trans ?_
    rw [if_pos (by omega), hw i (by omega), hw (i + 4) (by omega)]
    rfl

theorem cfNice_eq {m : ℕ → Word} (h : Expanded m w68 w64) (v : Regs) :
    cfNice tInit v w68 w64 = Standard.compress v m := by
  have hrounds : forLoop 0 64 (cfRound tInit w68 w64) v = Standard.rounds m v (0 + 64) := by
    refine forLoop_induction (fun k r => r = Standard.rounds m v k) rfl ?_
    rintro k r - hk rfl
    rw [cfRound_eq _ _ _ (by omega), h.w k (by omega), h.w' k (by omega)]
    rfl
  rw [cfNice, hrounds]
  rfl

/-! ### The blocks -/

theorem processBlock_eq {i : ℕ} (hbuf : 64 * i + 64 ≤ buf.length) {s : BlockState}
    (h68 : s.w68.length = 68) (h64 : s.w64.length = 64) :
    (processBlock tInit buf i s).v = Standard.compress s.v (Standard.word (buf.drop (64 * i))) ∧
      (processBlock tInit buf i s).w68.length = 68 ∧
      (processBlock tInit buf i s).w64.length = 64 := by
  have hlen : 64 ≤ (buf.drop (i * 64)).length := by
    rw [List.length_drop]
    omega
  have hexp := messageExtNice_eq hlen h68 h64
  unfold processBlock
  generalize messageExtNice (buf.drop (i * 64)) s.w68 s.w64 = expanded at hexp ⊢
  obtain ⟨w68, w64⟩ := expanded
  rw [Nat.mul_comm 64 i]
  exact ⟨cfNice_eq hexp s.v, hexp.length68, hexp.length64⟩

/-- The loop over the blocks is the iterated compression function. -/
theorem processBlocks_eq {n : ℕ} (hbuf : 64 * n ≤ buf.length) {s : BlockState}
    (h68 : s.w68.length = 68) (h64 : s.w64.length = 64) :
    (forLoop 0 n (processBlock tInit buf) s).v = Standard.iterate buf s.v n := by
  have hall : (forLoop 0 n (processBlock tInit buf) s).v = Standard.iterate buf s.v (0 + n) ∧
      (forLoop 0 n (processBlock tInit buf) s).w68.length = 68 ∧
      (forLoop 0 n (processBlock tInit buf) s).w64.length = 64 := by
    refine forLoop_induction (fun k (s' : BlockState) =>
      s'.v = Standard.iterate buf s.v k ∧ s'.w68.length = 68 ∧ s'.w64.length = 64)
      ⟨rfl, h68, h64⟩ ?_
    rintro k s' - hk ⟨hv, h68', h64'⟩
    have hblock : 64 * k + 64 ≤ buf.length := by omega
    obtain ⟨hstep, hlens⟩ := processBlock_eq hblock h68' h64'
    refine ⟨?_, hlens⟩
    rw [hstep, hv]
    rfl
  rw [hall.1, Nat.zero_add]

/-- The digest, in terms that evaluate. -/
theorem digest_eq (message : List Byte) :
    Standard.digest message =
      (forLoop 0 ((Standard.pad message).length / 64) (processBlock tInit (Standard.pad message))
        ⟨iv, List.replicate 68 0, List.replicate 64 0⟩).v := by
  symm
  exact processBlocks_eq (s := ⟨iv, List.replicate 68 0, List.replicate 64 0⟩)
    (Nat.mul_div_le _ _) List.length_replicate List.length_replicate

/-! ### Padding -/

variable {message : List Byte}

theorem toNat_messageLen (h : message.length < 2 ^ 29) :
    (BitVec.ofNat 32 message.length).toNat = message.length := by
  rw [BitVec.toNat_ofNat, Nat.mod_eq_of_lt (by omega)]

/-- The sum wraps. -/
theorem toNat_blockCount (messageLen : Word) :
    (blockCount messageLen).toNat = (messageLen.toNat + 73) % 2 ^ 32 / 64 := by
  have hlt := messageLen.isLt
  unfold blockCount
  simp only [BitVec.ofNat_eq_ofNat, BitVec.toNat_udiv, BitVec.toNat_add, BitVec.toNat_ofNat,
    show 64 % 2 ^ 32 = 64 from rfl]
  omega

theorem toNat_blockCount_length (h : message.length < 2 ^ 29) :
    (blockCount (BitVec.ofNat 32 message.length)).toNat = (message.length + 73) / 64 := by
  rw [toNat_blockCount, toNat_messageLen h, Nat.mod_eq_of_lt (by omega)]

/-- The byte of the length field, from the 32-bit product. -/
theorem lengthByte_eq_extract (messageLen : Word) (i : ℕ) :
    lengthByte messageLen i = ((messageLen * 8).setWidth 64).extractLsb' (8 * i) 8 := by
  unfold lengthByte
  rw [Nat.mul_comm i 8]
  exact Words.shifted_byte (by decide) _ _

theorem lengthByte_eq (h : message.length < 2 ^ 29) (i : ℕ) :
    lengthByte (BitVec.ofNat 32 message.length) i =
      (BitVec.ofNat 64 (8 * message.length)).extractLsb' (8 * i) 8 := by
  have hbits : (BitVec.ofNat 32 message.length * 8).setWidth 64 =
      BitVec.ofNat 64 (8 * message.length) := by
    apply BitVec.eq_of_toNat_eq
    simp only [BitVec.ofNat_eq_ofNat, BitVec.toNat_setWidth, BitVec.toNat_mul,
      toNat_messageLen h, BitVec.toNat_ofNat]
    omega
  rw [lengthByte_eq_extract, hbits]

/-- The buffer, when it has room for the message, `0x80`, `m` more bytes and the length field. -/
theorem messageBuf_layout {messageLen : Word} (hlen : message.length = messageLen.toNat) {m : ℕ}
    (hsize : (blockCount messageLen * 64).toNat = message.length + 1 + m + 8) :
    messageBuf message messageLen =
      message ++ 0x80 ::
        (List.replicate m 0 ++ (List.range 8).reverse.map (lengthByte messageLen)) := by
  have hcopied : (message ++ List.replicate (1 + m + 8) (0 : Byte)).set message.length 0x80 =
      (message ++ [0x80]) ++ List.replicate (m + 8) 0 := by
    rw [List.set_append_right _ _ (Nat.le_refl _), Nat.sub_self,
      show 1 + m + 8 = m + 8 + 1 by omega, List.replicate_succ]
    simp
  have hback := forLoop_set_back (lengthByte messageLen) (message ++ [0x80]) 0 m 8
  rw [List.length_append, List.length_singleton] at hback
  unfold messageBuf
  simp only [hsize, ← hlen, List.take_length, List.drop_replicate,
    show message.length + 1 + m + 8 - message.length = 1 + m + 8 by omega, hcopied]
  rw [hback, List.append_assoc]
  rfl

/-- The buffer: `num` blocks, padded to their end. -/
theorem messageBuf_eq (h : message.length < 2 ^ 29) :
    messageBuf message (BitVec.ofNat 32 message.length) =
      message ++ 0x80 ::
        (List.replicate (64 * ((message.length + 73) / 64) - message.length - 9) 0 ++
          Words.beBytes 8 (BitVec.ofNat 64 (8 * message.length))) := by
  have hsize : (blockCount (BitVec.ofNat 32 message.length) * 64).toNat =
      message.length + 1 + (64 * ((message.length + 73) / 64) - message.length - 9) + 8 := by
    simp only [BitVec.ofNat_eq_ofNat, BitVec.toNat_mul, toNat_blockCount_length h, BitVec.toNat_ofNat]
    omega
  have hbytes : lengthByte (BitVec.ofNat 32 message.length) =
      fun i => (BitVec.ofNat 64 (8 * message.length)).extractLsb' (8 * i) 8 := by
    funext i
    exact lengthByte_eq h i
  rw [messageBuf_layout (toNat_messageLen h).symm hsize, hbytes]
  rfl

/-! ### Main result -/

theorem messageBuf_eq_pad_iff (h : message.length < 2 ^ 29) :
    messageBuf message (BitVec.ofNat 32 message.length) = Standard.pad message ↔
      message.length % 64 ≠ 55 := by
  rw [messageBuf_eq h, Standard.pad]
  constructor
  · intro heq hlen
    -- a whole block of zeros more than the standard has
    have := congrArg List.length heq
    simp only [List.length_append, List.length_cons, List.length_replicate, Standard.zeros] at this
    omega
  · intro hlen
    have hzeros : 64 * ((message.length + 73) / 64) - message.length - 9 =
        Standard.zeros message.length := by
      unfold Standard.zeros
      omega
    rw [hzeros]

theorem sm3Nice_eq (h : message.length < 2 ^ 29) :
    sm3Nice message (BitVec.ofNat 32 message.length) =
      Standard.iterate (messageBuf message (BitVec.ofNat 32 message.length)) iv
        ((message.length + 73) / 64) := by
  unfold sm3Nice
  rw [toNat_blockCount_length h]
  refine processBlocks_eq ?_ List.length_replicate List.length_replicate
  rw [messageBuf_eq h]
  simp only [List.length_append, List.length_cons, List.length_replicate, Words.length_beBytes]
  omega

/-- `SM3_nice` splits a message into the standard's blocks, padded in the standard's way, and
leaves the standard's digest in `V`. -/
def Conforms (message : List Byte) : Prop :=
  (blockCount (BitVec.ofNat 32 message.length)).toNat = (message.length + 9 + 63) / 64 ∧
    messageBuf message (BitVec.ofNat 32 message.length) = Standard.pad message ∧
    sm3Nice message (BitVec.ofNat 32 message.length) = Standard.digest message

/-- The program hashes as the standard does, but for one residue of the length. -/
theorem conforms_iff (message : List Byte) (h : message.length < 2 ^ 29) :
    Conforms message ↔ message.length % 64 ≠ 55 := by
  constructor
  · rintro ⟨-, hpad, -⟩
    exact (messageBuf_eq_pad_iff h).1 hpad
  · intro hlen
    have hpad := (messageBuf_eq_pad_iff h).2 hlen
    have hnum : (message.length + 73) / 64 = (message.length + 9 + 63) / 64 := by omega
    refine ⟨?_, hpad, ?_⟩
    · rw [toNat_blockCount_length h, hnum]
    · rw [sm3Nice_eq h, hpad, Standard.digest, Standard.length_pad_eq,
        Nat.mul_div_cancel_left _ (by decide), hnum]
      rfl

theorem conforms_iff_abc :
    Conforms [0x61, 0x62, 0x63] ↔ ([0x61, 0x62, 0x63] : List Byte).length % 64 ≠ 55 :=
  conforms_iff _ (by decide)

/-- A message of 55 bytes is hashed with a block of zeros too many. -/
theorem not_digest_55 :
    sm3Nice (List.replicate 55 0x61) 55 ≠ Standard.digest (List.replicate 55 0x61) := by
  rw [digest_eq]
  decide +kernel

end Vcil.Sm3
