import Vcil.Sm3.Refinement
import Vcil.System.Programs

/-!
# The SM3 program over the bridge

`SM3_nice` of `sm3.h`, with its calls of `custom3_sm3p0` and `custom3_sm3p1` as what they are, calls
that are answered by the board.

* the functions of `sm3.h` from `message_ext_nice` on, as programs of the guest;
* `value_sm3Nice`: on the reference functions they compute what `Sm3.sm3Nice` computes;
* `digest_over_bridge`: the whole run, from the message to the digest.
-/

namespace Vcil.Sm3.Guest

open Vcil.System Interaction

/-- `custom3_sm3p0`. -/
def custom3Sm3p0 (x : Word) : GuestProgram Word := Program.ask ⟨.sm3p0, x, 0⟩

/-- `custom3_sm3p1`. -/
def custom3Sm3p1 (x : Word) : GuestProgram Word := Program.ask ⟨.sm3p1, x, 0⟩

/-- The body of the second loop of `message_ext_nice`. -/
def extend (j : ℕ) (w68 : List Word) : GuestProgram (List Word) := do
  let w68Buf := w68.getD (j - 16) 0 ^^^ w68.getD (j - 9) 0 ^^^ sm3Rotl32 (w68.getD (j - 3) 0) 15
  let w68Temp ← custom3Sm3p1 w68Buf
  return w68.set j (w68Temp ^^^ sm3Rotl32 (w68.getD (j - 13) 0) 7 ^^^ w68.getD (j - 6) 0)

/-- `message_ext_nice`: the arrays `W68` and `W64` after the call. -/
def messageExtNice (messageBuf : List Byte) (w68 w64 : List Word) :
    GuestProgram (List Word × List Word) := do
  let w68 := Loops.forLoop 0 16 (fun j w68 => w68.set j (loadWord messageBuf j)) w68
  let w68 ← Program.forLoop 16 52 extend w68
  let w64 := Loops.forLoop 0 64 (fun j w64 => w64.set j (w68.getD j 0 ^^^ w68.getD (j + 4) 0)) w64
  return (w68, w64)

/-- One round of `CF_nice`. -/
def cfRound (t w68 w64 : List Word) (j : ℕ) (v : Regs) : GuestProgram Regs := do
  let ss1 := sm3Rotl32 (sm3Rotl32 v.a 12 + v.e + sm3Rotl32 (t.getD j 0) (j % 32)) 7
  let ss2 := ss1 ^^^ sm3Rotl32 v.a 12
  let tt1 := ff v.a v.b v.c j + v.d + ss2 + w64.getD j 0
  let tt2 := gg v.e v.f v.g j + v.h + ss1 + w68.getD j 0
  let e ← custom3Sm3p0 tt2
  return {
    a := tt1
    b := v.a
    c := sm3Rotl32 v.b 9
    d := v.c
    e := e
    f := v.e
    g := sm3Rotl32 v.f 19
    h := v.g }

/-- `CF_nice`: the array `V` after the call. -/
def cfNice (t : List Word) (v : Regs) (w68 w64 : List Word) : GuestProgram Regs := do
  let vBuf ← Program.forLoop 0 64 (cfRound t w68 w64) v
  return vBuf.xor v

/-- The body of the loop over the blocks. -/
def processBlock (t : List Word) (buf : List Byte) (i : ℕ) (s : BlockState) :
    GuestProgram BlockState := do
  let (w68, w64) ← messageExtNice (buf.drop (i * 64)) s.w68 s.w64
  let v ← cfNice t s.v w68 w64
  return ⟨v, w68, w64⟩

/-- `SM3_nice`: what it leaves in `V`. -/
def sm3Nice (message : List Byte) (messageLen : Word) : GuestProgram Regs := do
  let buf := messageBuf message messageLen
  let s : BlockState := ⟨iv, List.replicate 68 0, List.replicate 64 0⟩
  let s ← Program.forLoop 0 (blockCount messageLen).toNat (processBlock tInit buf) s
  return s.v

/-! ### The values of the programs -/

section Value

variable (t w68 w64 : List Word) (buf : List Byte) (v : Regs)

@[simp] theorem value_custom3Sm3p0 (x : Word) :
    (custom3Sm3p0 x).value Ask.value = Vcil.custom3Sm3p0 x := rfl

@[simp] theorem value_custom3Sm3p1 (x : Word) :
    (custom3Sm3p1 x).value Ask.value = Vcil.custom3Sm3p1 x := rfl

@[simp] theorem value_extend (j : ℕ) :
    (extend j w68).value Ask.value = Sm3.extend j w68 := by
  simp [extend, Sm3.extend]

@[simp] theorem value_messageExtNice :
    (messageExtNice buf w68 w64).value Ask.value = Sm3.messageExtNice buf w68 w64 := by
  simp [messageExtNice, Sm3.messageExtNice]

@[simp] theorem value_cfRound (j : ℕ) :
    (cfRound t w68 w64 j v).value Ask.value = Sm3.cfRound t w68 w64 j v := by
  simp [cfRound, Sm3.cfRound]

@[simp] theorem value_cfNice :
    (cfNice t v w68 w64).value Ask.value = Sm3.cfNice t v w68 w64 := by
  simp [cfNice, Sm3.cfNice]

@[simp] theorem value_processBlock (i : ℕ) (s : BlockState) :
    (processBlock t buf i s).value Ask.value = Sm3.processBlock t buf i s := by
  simp [processBlock, Sm3.processBlock]

theorem value_sm3Nice (message : List Byte) (messageLen : Word) :
    (sm3Nice message messageLen).value Ask.value = Sm3.sm3Nice message messageLen := by
  simp [sm3Nice, Sm3.sm3Nice]

end Value

/-! ### Main result -/

/-- On the reference functions the program computes the digest, but for one residue of lengths. -/
theorem value_sm3Nice_digest {message : List Byte} (hlen : message.length < 2 ^ 29)
    (h55 : message.length % 64 ≠ 55) :
    (sm3Nice message (BitVec.ofNat 32 message.length)).value Ask.value =
      Standard.digest message := by
  have hpad := (messageBuf_eq_pad_iff hlen).2 h55
  have hnum : (message.length + 73) / 64 = (message.length + 9 + 63) / 64 := by omega
  rw [value_sm3Nice, sm3Nice_eq hlen, hpad, Standard.digest, Standard.length_pad_eq,
    Nat.mul_div_cancel_left _ (by decide), hnum]
  rfl

/-- Executed on the guest, with every `P0` and `P1` computed by the board, `SM3_nice` ends, with the
standard's digest in `V` and never with anything else, unless the length is 55 modulo 64.  The
timing is arbitrary where `read()` returns all or nothing, frames take at least four clocks and
nothing stops; so are the values that the uninitialised locals hold. -/
theorem digest_over_bridge (message : List Byte) (hlen : message.length < 2 ^ 29)
    (h55 : message.length % 64 ≠ 55) (garbage : ℕ → Word) (es : ℕ → Event)
    (hfair : (running Regs garbage 4).Fair es) :
    (∃ n, ((running Regs garbage 4).trace
        (Running.init (sm3Nice message (BitVec.ofNat 32 message.length))) es n).program =
          .done (Standard.digest message)) ∧
      ∀ n v, ((running Regs garbage 4).trace
        (Running.init (sm3Nice message (BitVec.ofNat 32 message.length))) es n).program = .done v →
          v = Standard.digest message := by
  rw [← value_sm3Nice_digest hlen h55]
  exact running_value garbage _ hfair

theorem digest_over_bridge_abc :
    (∃ n, ((running Regs (fun _ => 0xdeadbeef) 4).trace
        (Running.init (sm3Nice [0x61, 0x62, 0x63] 3)) inTurn n).program =
          .done (Standard.digest [0x61, 0x62, 0x63])) ∧
      ∀ n v, ((running Regs (fun _ => 0xdeadbeef) 4).trace
        (Running.init (sm3Nice [0x61, 0x62, 0x63] 3)) inTurn n).program = .done v →
          v = Standard.digest [0x61, 0x62, 0x63] :=
  digest_over_bridge [0x61, 0x62, 0x63] (by decide) (by decide) _ inTurn fair_inTurn

end Vcil.Sm3.Guest
