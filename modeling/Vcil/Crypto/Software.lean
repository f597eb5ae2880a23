import Mathlib.Tactic.SplitIfs
import Vcil.Lib.Words

/-!
# The software branches of the coprocessor driver

`nice.h` computes every coprocessor operation in C when it is built without the UART; these
functions are the reference the hardware is compared with.

* `sm3Rotl32` is the shift-and-or rotation macro, equal to a rotation (`sm3Rotl32_eq`);
* `custom3Sm3p0`, `custom3Sm3p1` are the two permutations of SM3;
* `sm4Nonlinear` substitutes each byte through `sm4Sbox`, `sm4Linear` is `L'` (mode 0) or
  `L` (mode 1), and `custom3Sm4ks`, `custom3Sm4ed` put the two together;
* `Op` names the four operations, with their opcode (`Op.code`), reference result
  (`Op.eval`) and the clock cycles the coprocessor takes (`Op.cycles`).
-/

namespace Vcil

/-- A byte. -/
abbrev Byte := BitVec 8

/-- `unsigned int` on both the simulated and the host machine. -/
abbrev Word := BitVec 32

/-! ### SM3 -/

/-- `SM3_Rotl32` (and `SM4_Rotl32`, the same macro). -/
def sm3Rotl32 (buf : Word) (n : ℕ) : Word := (buf <<< n) ||| (buf >>> (32 - n))

theorem sm3Rotl32_eq (buf : Word) {n : ℕ} (hn : n < 32) : sm3Rotl32 buf n = buf.rotateLeft n :=
  Words.shift_or_shift buf hn

/-- `SM3_NICE::custom3_sm3p0`, software branch. -/
def custom3Sm3p0 (x : Word) : Word := x ^^^ sm3Rotl32 x 9 ^^^ sm3Rotl32 x 17

/-- `SM3_NICE::custom3_sm3p1`, software branch. -/
def custom3Sm3p1 (x : Word) : Word := x ^^^ sm3Rotl32 x 15 ^^^ sm3Rotl32 x 23

theorem custom3Sm3p0_eq (x : Word) : custom3Sm3p0 x = x ^^^ x.rotateLeft 9 ^^^ x.rotateLeft 17 := by
  rw [custom3Sm3p0, sm3Rotl32_eq x (by decide), sm3Rotl32_eq x (by decide)]

theorem custom3Sm3p1_eq (x : Word) :
    custom3Sm3p1 x = x ^^^ x.rotateLeft 15 ^^^ x.rotateLeft 23 := by
  rw [custom3Sm3p1, sm3Rotl32_eq x (by decide), sm3Rotl32_eq x (by decide)]

/-! ### SM4 -/

/-- `SM4_NICE::SM4_Sbox`. -/
def sm4SboxTable : List Byte := [
    0xd6, 0x90, 0xe9, 0xfe, 0xcc, 0xe1, 0x3d, 0xb7, 0x16, 0xb6, 0x14, 0xc2, 0x28, 0xfb, 0x2c, 0x05,
    0x2b, 0x67, 0x9a, 0x76, 0x2a, 0xbe, 0x04, 0xc3, 0xaa, 0x44, 0x13, 0x26, 0x49, 0x86, 0x06, 0x99,
    0x9c, 0x42, 0x50, 0xf4, 0x91, 0xef, 0x98, 0x7a, 0x33, 0x54, 0x0b, 0x43, 0xed, 0xcf, 0xac, 0x62,
    0xe4, 0xb3, 0x1c, 0xa9, 0xc9, 0x08, 0xe8, 0x95, 0x80, 0xdf, 0x94, 0xfa, 0x75, 0x8f, 0x3f, 0xa6,
    0x47, 0x07, 0xa7, 0xfc, 0xf3, 0x73, 0x17, 0xba, 0x83, 0x59, 0x3c, 0x19, 0xe6, 0x85, 0x4f, 0xa8,
    0x68, 0x6b, 0x81, 0xb2, 0x71, 0x64, 0xda, 0x8b, 0xf8, 0xeb, 0x0f, 0x4b, 0x70, 0x56, 0x9d, 0x35,
    0x1e, 0x24, 0x0e, 0x5e, 0x63, 0x58, 0xd1, 0xa2, 0x25, 0x22, 0x7c, 0x3b, 0x01, 0x21, 0x78, 0x87,
    0xd4, 0x00, 0x46, 0x57, 0x9f, 0xd3, 0x27, 0x52, 0x4c, 0x36, 0x02, 0xe7, 0xa0, 0xc4, 0xc8, 0x9e,
    0xea, 0xbf, 0x8a, 0xd2, 0x40, 0xc7, 0x38, 0xb5, 0xa3, 0xf7, 0xf2, 0xce, 0xf9, 0x61, 0x15, 0xa1,
    0xe0, 0xae, 0x5d, 0xa4, 0x9b, 0x34, 0x1a, 0x55, 0xad, 0x93, 0x32, 0x30, 0xf5, 0x8c, 0xb1, 0xe3,
    0x1d, 0xf6, 0xe2, 0x2e, 0x82, 0x66, 0xca, 0x60, 0xc0, 0x29, 0x23, 0xab, 0x0d, 0x53, 0x4e, 0x6f,
    0xd5, 0xdb, 0x37, 0x45, 0xde, 0xfd, 0x8e, 0x2f, 0x03, 0xff, 0x6a, 0x72, 0x6d, 0x6c, 0x5b, 0x51,
    0x8d, 0x1b, 0xaf, 0x92, 0xbb, 0xdd, 0xbc, 0x7f, 0x11, 0xd9, 0x5c, 0x41, 0x1f, 0x10, 0x5a, 0xd8,
    0x0a, 0xc1, 0x31, 0x88, 0xa5, 0xcd, 0x7b, 0xbd, 0x2d, 0x74, 0xd0, 0x12, 0xb8, 0xe5, 0xb4, 0xb0,
    0x89, 0x69, 0x97, 0x4a, 0x0c, 0x96, 0x77, 0x7e, 0x65, 0xb9, 0xf1, 0x09, 0xc5, 0x6e, 0xc6, 0x84,
    0x18, 0xf0, 0x7d, 0xec, 0x3a, 0xdc, 0x4d, 0x20, 0x79, 0xee, 0x5f, 0x3e, 0xd7, 0xcb, 0x39, 0x48]

/-- One lookup `SM4_Sbox[i]`. -/
def sm4Sbox (i : Byte) : Byte := sm4SboxTable.getD i.toNat 0

/-- `SM4_NICE::SM4_Nonlinear`. -/
def sm4Nonlinear (a : Word) : Word :=
  ((sm4Sbox ((a >>> 24).setWidth 8)).setWidth 32 <<< 24) |||
  ((sm4Sbox ((a >>> 16).setWidth 8)).setWidth 32 <<< 16) |||
  ((sm4Sbox ((a >>> 8).setWidth 8)).setWidth 32 <<< 8) |||
  (sm4Sbox (a.setWidth 8)).setWidth 32

/-- `SM4_NICE::SM4_Linear`. -/
def sm4Linear (b : Word) (mode : ℕ) : Word :=
  if mode = 0 then b ^^^ sm3Rotl32 b 13 ^^^ sm3Rotl32 b 23
  else if mode = 1 then
    b ^^^ sm3Rotl32 b 2 ^^^ sm3Rotl32 b 10 ^^^ sm3Rotl32 b 18 ^^^ sm3Rotl32 b 24
  else 1

/-- `SM4_NICE::custom3_sm4ks`, software branch. -/
def custom3Sm4ks (k tk : Word) : Word := k ^^^ sm4Linear (sm4Nonlinear tk) 0

/-- `SM4_NICE::custom3_sm4ed`, software branch. -/
def custom3Sm4ed (x tx : Word) : Word := x ^^^ sm4Linear (sm4Nonlinear tx) 1

/-! ### The four operations -/

/-- The operations the coprocessor knows. -/
inductive Op
  | sm3p0
  | sm3p1
  | sm4ks
  | sm4ed
  deriving DecidableEq, Repr

/-- The first two request bytes. -/
def Op.code : Op → BitVec 16
  | .sm3p0 => 0x7b71
  | .sm3p1 => 0x7b72
  | .sm4ks => 0x7b73
  | .sm4ed => 0x7b74

/-- The reference result on the operands `rs1` and `rs2`. -/
def Op.eval : Op → Word → Word → Word
  | .sm3p0, rs1, _ => custom3Sm3p0 rs1
  | .sm3p1, rs1, _ => custom3Sm3p1 rs1
  | .sm4ks, rs1, rs2 => custom3Sm4ks rs1 rs2
  | .sm4ed, rs1, rs2 => custom3Sm4ed rs1 rs2

/-- The clock cycles of one operation on the coprocessor. -/
def Op.cycles : Op → Byte
  | .sm3p0 | .sm3p1 => 3
  | .sm4ks | .sm4ed => 7

/-- The five reply bytes to a request: the result, then the cycle count. -/
def Op.reply (op : Op) (rs1 rs2 : Word) : List Byte :=
  Words.beBytes 4 (op.eval rs1 rs2) ++ [op.cycles]

/-- Opcode decoding. -/
def Op.decode (code : BitVec 16) : Option Op :=
  if code = 0x7b71 then some .sm3p0
  else if code = 0x7b72 then some .sm3p1
  else if code = 0x7b73 then some .sm4ks
  else if code = 0x7b74 then some .sm4ed
  else none

@[simp] theorem Op.decode_code (op : Op) : Op.decode op.code = some op := by
  cases op <;> rfl

theorem Op.code_of_decode {code : BitVec 16} {op : Op} (h : Op.decode code = some op) :
    code = op.code := by
  unfold Op.decode at h
  split_ifs at h <;> cases h <;> assumption

end Vcil
