import Vcil.Sm3.Refinement

/-!
# The sizes of the SM3 program

`SM3_nice` computes the size of its buffer and the bit length of the message in 32-bit arithmetic;
the bit length is widened to 64 bits only after the multiplication.

* `bufSize`, `lengthIndex`: the argument of `malloc`, and the indices of the length field;
* `SizesSafe`: every write is inside the buffer, and the last eight bytes are the bit length;
* `room_iff`: the buffer has room for the message up to the last 73 lengths of 32 bits;
* `beNat_lengthField`: the length field is the bit length modulo `2 ^ 32`;
* `sizesSafe_iff`: the two together, for the messages of less than `2 ^ 29` bytes.
-/

namespace Vcil.Sm3

/-- The argument of `malloc`: `num * 64`. -/
def bufSize (messageLen : Word) : Word := blockCount messageLen * 64

/-- The index `num * 64 - i - 1` of byte `i` of the length field. -/
def lengthIndex (messageLen : Word) (i : ℕ) : Word :=
  bufSize messageLen - BitVec.ofNat 32 i - 1

/-- The last eight bytes of the buffer. -/
def lengthField (message : List Byte) (messageLen : Word) : List Byte :=
  (messageBuf message messageLen).drop ((bufSize messageLen).toNat - 8)

/-- The copy, the byte `0x80` and the length field are inside the buffer and do not overlap, and
the length field is the number of bits of the message. -/
structure SizesSafe (messageLen : Word) : Prop where
  room : messageLen.toNat + 9 ≤ (bufSize messageLen).toNat
  copy_inside : ∀ k < messageLen.toNat, k < (bufSize messageLen).toNat
  marker_inside : messageLen.toNat < (bufSize messageLen).toNat
  field_inside : ∀ i < 8, (lengthIndex messageLen i).toNat < (bufSize messageLen).toNat
  field_apart : ∀ i < 8, messageLen.toNat < (lengthIndex messageLen i).toNat
  bits : ∀ message : List Byte, message.length = messageLen.toNat →
    Words.beNat (lengthField message messageLen) = 8 * messageLen.toNat

variable (messageLen : Word)

/-! ### The buffer -/

/-- The product does not wrap. -/
theorem toNat_bufSize :
    (bufSize messageLen).toNat = (messageLen.toNat + 73) % 2 ^ 32 / 64 * 64 := by
  simp only [bufSize, BitVec.ofNat_eq_ofNat, BitVec.toNat_mul, toNat_blockCount,
    BitVec.toNat_ofNat]
  omega

/-- Past the wrap a block is left at most. -/
theorem room_iff :
    messageLen.toNat + 9 ≤ (bufSize messageLen).toNat ↔ messageLen.toNat + 73 < 2 ^ 32 := by
  have hlt := messageLen.isLt
  rw [toNat_bufSize]
  omega

variable {messageLen}

theorem toNat_lengthIndex (hroom : messageLen.toNat + 9 ≤ (bufSize messageLen).toNat) {i : ℕ}
    (hi : i < 8) : (lengthIndex messageLen i).toNat = (bufSize messageLen).toNat - i - 1 := by
  have hlt := (bufSize messageLen).isLt
  unfold lengthIndex
  simp only [BitVec.ofNat_eq_ofNat, BitVec.toNat_sub, BitVec.toNat_ofNat]
  omega

/-! ### The length field -/

/-- The multiplication by eight wraps before it is widened. -/
theorem beNat_lengthField (hroom : messageLen.toNat + 9 ≤ (bufSize messageLen).toNat)
    {message : List Byte} (hlen : message.length = messageLen.toNat) :
    Words.beNat (lengthField message messageLen) = 8 * messageLen.toNat % 2 ^ 32 := by
  obtain ⟨m, hm⟩ : ∃ m, (bufSize messageLen).toNat = message.length + 1 + m + 8 :=
    ⟨(bufSize messageLen).toNat - message.length - 9, by omega⟩
  have hfield : lengthField message messageLen =
      Words.beBytes 8 ((messageLen * 8).setWidth 64) := by
    have hbytes : lengthByte messageLen =
        fun i => ((messageLen * 8).setWidth 64).extractLsb' (8 * i) 8 :=
      funext (lengthByte_eq_extract messageLen)
    have hprefix : (bufSize messageLen).toNat - 8 =
        (message ++ 0x80 :: List.replicate m (0 : Byte)).length := by
      simp only [List.length_append, List.length_cons, List.length_replicate]
      omega
    rw [lengthField, messageBuf_layout hlen hm, hprefix, hbytes, ← List.cons_append,
      ← List.append_assoc, List.drop_left]
    rfl
  rw [hfield, Words.beNat_beBytes]
  simp only [BitVec.ofNat_eq_ofNat, BitVec.toNat_setWidth, BitVec.toNat_mul, BitVec.toNat_ofNat]
  omega

/-- Nothing is lost only if the number of bits fits in 32 bits. -/
theorem SizesSafe.lt (h : SizesSafe messageLen) : messageLen.toNat < 2 ^ 29 := by
  have hbits := h.bits (List.replicate messageLen.toNat 0) List.length_replicate
  rw [beNat_lengthField h.room List.length_replicate] at hbits
  omega

/-! ### Main result -/

/-- The sizes are right exactly for the messages of less than `2 ^ 29` bytes. -/
theorem sizesSafe_iff (messageLen : Word) : SizesSafe messageLen ↔ messageLen.toNat < 2 ^ 29 := by
  constructor
  · exact SizesSafe.lt
  · intro h
    have hroom := (room_iff messageLen).2 (by omega)
    refine ⟨hroom, fun k hk => by omega, by omega, fun i hi => ?_, fun i hi => ?_, ?_⟩
    · rw [toNat_lengthIndex hroom hi]
      omega
    · rw [toNat_lengthIndex hroom hi]
      omega
    · intro message hlen
      rw [beNat_lengthField hroom hlen]
      omega

/-- The length field of a message of `2 ^ 29` bytes is zero. -/
theorem not_sizesSafe_512MiB : ¬ SizesSafe 0x20000000 := fun h => absurd h.lt (by decide)

end Vcil.Sm3
