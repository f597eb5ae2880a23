import Vcil.Lib.Loops
import Vcil.Sm3.Standard

/-!
# The SM3 program of the guest

`SM3_nice` of `insn.c` (and of `sm3.h`), which hashes with the coprocessor's `P0` and `P1`.  Loops
over arrays are loops over lists; the eight words of `V` are a record.

* `messageExtNice`, `cfNice`: message expansion and compression of one block;
* `blockCount`, `messageBuf`: the number of blocks and the padded buffer;
* `sm3Nice`: the whole function.
-/

namespace Vcil.Sm3

open Loops

/-- The macro `SM3_Rotl32`, with the shifts of RV32, which use the low five bits of the count. -/
def sm3Rotl32 (buf : Word) (n : ℕ) : Word := (buf <<< (n % 32)) ||| (buf >>> ((32 - n) % 32))

/-- The array `IV`. -/
def iv : Regs :=
  ⟨0x7380166F, 0x4914B2B9, 0x172442D7, 0xDA8A0600, 0xA96F30BC, 0x163138AA, 0xE38DEE4D, 0xB0FB0E4E⟩

/-- The array `T` after `T_init`. -/
def tInit : List Word :=
  let t := List.replicate 64 0
  let t := forLoop 0 16 (fun j t => t.set j 0x79CC4519) t
  forLoop 16 48 (fun j t => t.set j 0x7A879D8A) t

def ff (x y z : Word) (j : ℕ) : Word :=
  if 0 ≤ j ∧ j ≤ 15 then x ^^^ y ^^^ z
  else if 16 ≤ j ∧ j ≤ 63 then (x &&& y) ||| (x &&& z) ||| (y &&& z)
  else 0

def gg (x y z : Word) (j : ℕ) : Word :=
  if 0 ≤ j ∧ j ≤ 15 then x ^^^ y ^^^ z
  else if 16 ≤ j ∧ j ≤ 63 then (x &&& y) ||| (~~~x &&& z)
  else 0

/-- The word assembled from four bytes. -/
def loadWord (messageBuf : List Byte) (j : ℕ) : Word :=
  (((messageBuf.getD (j * 4 + 0) 0).setWidth 32 <<< 24) &&& 0xFF000000) |||
  (((messageBuf.getD (j * 4 + 1) 0).setWidth 32 <<< 16) &&& 0x00FF0000) |||
  (((messageBuf.getD (j * 4 + 2) 0).setWidth 32 <<< 8) &&& 0x0000FF00) |||
  (((messageBuf.getD (j * 4 + 3) 0).setWidth 32 <<< 0) &&& 0x000000FF)

/-- The body of the second loop of `message_ext_nice`. -/
def extend (j : ℕ) (w68 : List Word) : List Word :=
  let w68Buf := w68.getD (j - 16) 0 ^^^ w68.getD (j - 9) 0 ^^^ sm3Rotl32 (w68.getD (j - 3) 0) 15
  let w68Temp := custom3Sm3p1 w68Buf
  w68.set j (w68Temp ^^^ sm3Rotl32 (w68.getD (j - 13) 0) 7 ^^^ w68.getD (j - 6) 0)

/-- `message_ext_nice`: the arrays `W68` and `W64` after the call. -/
def messageExtNice (messageBuf : List Byte) (w68 w64 : List Word) : List Word × List Word :=
  let w68 := forLoop 0 16 (fun j w68 => w68.set j (loadWord messageBuf j)) w68
  let w68 := forLoop 16 52 extend w68
  let w64 := forLoop 0 64 (fun j w64 => w64.set j (w68.getD j 0 ^^^ w68.getD (j + 4) 0)) w64
  (w68, w64)

/-- One round of `CF_nice`. -/
def cfRound (t w68 w64 : List Word) (j : ℕ) (v : Regs) : Regs :=
  let ss1 := sm3Rotl32 (sm3Rotl32 v.a 12 + v.e + sm3Rotl32 (t.getD j 0) (j % 32)) 7
  let ss2 := ss1 ^^^ sm3Rotl32 v.a 12
  let tt1 := ff v.a v.b v.c j + v.d + ss2 + w64.getD j 0
  let tt2 := gg v.e v.f v.g j + v.h + ss1 + w68.getD j 0
  { a := tt1
    b := v.a
    c := sm3Rotl32 v.b 9
    d := v.c
    e := custom3Sm3p0 tt2
    f := v.e
    g := sm3Rotl32 v.f 19
    h := v.g }

/-- `CF_nice`: the array `V` after the call. -/
def cfNice (t : List Word) (v : Regs) (w68 w64 : List Word) : Regs :=
  (forLoop 0 64 (cfRound t w68 w64) v).xor v

/-- `num`, in 32-bit arithmetic. -/
def blockCount (messageLen : Word) : Word := (messageLen + 1 + 8 + 64) / 64

/-- Byte `i` of the bit length, from the least significant. -/
def lengthByte (messageLen : Word) (i : ℕ) : Byte :=
  (((messageLen * 8).setWidth 64 >>> (i * 8)) &&& 0xFF).setWidth 8

/-- `message_buf` before the first block is processed. -/
def messageBuf (message : List Byte) (messageLen : Word) : List Byte :=
  let size := (blockCount messageLen * 64).toNat
  let buf := List.replicate size 0
  let buf := message.take messageLen.toNat ++ buf.drop messageLen.toNat
  let buf := buf.set messageLen.toNat 0x80
  forLoop 0 8 (fun i buf => buf.set (size - i - 1) (lengthByte messageLen i)) buf

/-- The state of the loop over the blocks: `V`, `W68` and `W64`. -/
structure BlockState where
  v : Regs
  w68 : List Word
  w64 : List Word

/-- The body of the loop over the blocks. -/
def processBlock (t : List Word) (buf : List Byte) (i : ℕ) (s : BlockState) : BlockState :=
  let (w68, w64) := messageExtNice (buf.drop (i * 64)) s.w68 s.w64
  ⟨cfNice t s.v w68 w64, w68, w64⟩

/-- `SM3_nice`: what it leaves in `V`. -/
def sm3Nice (message : List Byte) (messageLen : Word) : Regs :=
  let buf := messageBuf message messageLen
  let s : BlockState := ⟨iv, List.replicate 68 0, List.replicate 64 0⟩
  (forLoop 0 (blockCount messageLen).toNat (processBlock tInit buf) s).v

end Vcil.Sm3
