import Vcil.Sm4.Standard
import Vcil.System.Programs

/-!
# The SM4 program over the bridge

`sm4_nice` of `sm4.h`, with its calls of `custom3_sm4ks` and `custom3_sm4ed` as what they are, calls
that are answered by the board.

* `sm4Nice` and its loops, as programs of the guest;
* `value_sm4Nice`: on the reference functions they compute what `Sm4.sm4Nice` computes;
* `encrypts_over_bridge`: the whole run, from the key and the block to the arrays.
-/

namespace Vcil.Sm4.Guest

open Vcil.System Interaction

/-- `custom3_sm4ks`. -/
def custom3Sm4ks (k tk : Word) : GuestProgram Word := Program.ask ⟨.sm4ks, k, tk⟩

/-- `custom3_sm4ed`. -/
def custom3Sm4ed (x tx : Word) : GuestProgram Word := Program.ask ⟨.sm4ed, x, tx⟩

/-- The body of the loop that extends the key. -/
def keyRound (i : ℕ) (s : KeyState) : GuestProgram KeyState := do
  let kTemp := s.k.getD (i + 1) 0 ^^^ s.k.getD (i + 2) 0 ^^^ s.k.getD (i + 3) 0 ^^^ sm4Ck.getD i 0
  let k := s.k.set (i + 4) (← custom3Sm4ks (s.k.getD i 0) kTemp)
  return { k := k, rk := s.rk.set i (k.getD (i + 4) 0) }

/-- The body of the loops over a block, with the round keys in the order of the loop. -/
def blockRound (rk : ℕ → Word) (i : ℕ) (x : List Word) : GuestProgram (List Word) := do
  let xTemp := x.getD (i + 1) 0 ^^^ x.getD (i + 2) 0 ^^^ x.getD (i + 3) 0 ^^^ rk i
  return x.set (i + 4) (← custom3Sm4ed (x.getD i 0) xTemp)

/-- The loops that extend the key. -/
def extendKey (key : List Word) : GuestProgram KeyState :=
  let k := Loops.forLoop 0 4 (fun i k => k.set i (key.getD i 0 ^^^ sm4Fk.getD i 0))
    (List.replicate 36 0)
  Program.forLoop 0 32 keyRound ⟨k, List.replicate 32 0⟩

/-- The two loops over a block. -/
def cryptBlock (load rk : ℕ → Word) : GuestProgram (List Word) :=
  let x := Loops.forLoop 0 4 (fun i x => x.set i (load i)) (List.replicate 36 0)
  Program.forLoop 0 32 (blockRound rk) x

/-- `sm4_nice`: what it leaves in its arrays. -/
def sm4Nice (key cipher : List Word) : GuestProgram Sm4Arrays := do
  let s ← extendKey key
  let x ← cryptBlock (fun i => cipher.getD i 0) fun i => s.rk.getD i 0
  let y ← cryptBlock (fun i => x.getD (35 - i) 0) fun i => s.rk.getD (31 - i) 0
  return { s with x := x, y := y }

/-! ### The values of the programs -/

section Value

variable (key cipher : List Word) (load rk : ℕ → Word)

@[simp] theorem value_custom3Sm4ks (k tk : Word) :
    (custom3Sm4ks k tk).value Ask.value = Vcil.custom3Sm4ks k tk := rfl

@[simp] theorem value_custom3Sm4ed (x tx : Word) :
    (custom3Sm4ed x tx).value Ask.value = Vcil.custom3Sm4ed x tx := rfl

@[simp] theorem value_keyRound (i : ℕ) (s : KeyState) :
    (keyRound i s).value Ask.value = Sm4.keyRound Vcil.custom3Sm4ks i s := by
  simp [keyRound, Sm4.keyRound]

@[simp] theorem value_blockRound (i : ℕ) (x : List Word) :
    (blockRound rk i x).value Ask.value = Sm4.blockRound Vcil.custom3Sm4ed rk i x := by
  simp [blockRound, Sm4.blockRound]

@[simp] theorem value_extendKey :
    (extendKey key).value Ask.value = Sm4.extendKey Vcil.custom3Sm4ks key := by
  simp [extendKey, Sm4.extendKey]

@[simp] theorem value_cryptBlock :
    (cryptBlock load rk).value Ask.value = Sm4.cryptBlock Vcil.custom3Sm4ed load rk := by
  simp [cryptBlock, Sm4.cryptBlock]

theorem value_sm4Nice :
    (sm4Nice key cipher).value Ask.value =
      Sm4.sm4Nice Vcil.custom3Sm4ks Vcil.custom3Sm4ed key cipher := by
  simp [sm4Nice, Sm4.sm4Nice]

end Value

/-! ### Main result -/

/-- Executed on the guest, with every round of the key extension and of the two block loops computed
by the board, `sm4_nice` ends, always with the same arrays, and these hold the words of the cipher.
The timing is arbitrary where `read()` returns all or nothing, frames take at least four clocks and
nothing stops; so are the values that the uninitialised locals hold. -/
theorem encrypts_over_bridge (mk b : Fin 4 → Word) (garbage : ℕ → Word) (es : ℕ → Event)
    (hfair : (running Sm4Arrays garbage 4).Fair es) :
    ∃ s : Sm4Arrays,
      (∃ n, ((running Sm4Arrays garbage 4).trace
        (Running.init (sm4Nice (List.ofFn mk) (List.ofFn b))) es n).program = .done s) ∧
      (∀ n s', ((running Sm4Arrays garbage 4).trace
        (Running.init (sm4Nice (List.ofFn mk) (List.ofFn b))) es n).program = .done s' → s' = s) ∧
      Standard.Computed mk b s := by
  obtain ⟨hends, honly⟩ := running_value garbage (sm4Nice (List.ofFn mk) (List.ofFn b)) hfair
  rw [value_sm4Nice] at hends honly
  exact ⟨_, hends, honly, Standard.sm4Nice_computed mk b⟩

theorem encrypts_over_bridge_inTurn :
    ∃ s : Sm4Arrays,
      (∃ n, ((running Sm4Arrays (fun _ => 0xdeadbeef) 4).trace
        (Running.init (sm4Nice (List.ofFn Standard.fk) (List.ofFn ![1, 2, 3, 4]))) inTurn
          n).program = .done s) ∧
      (∀ n s', ((running Sm4Arrays (fun _ => 0xdeadbeef) 4).trace
        (Running.init (sm4Nice (List.ofFn Standard.fk) (List.ofFn ![1, 2, 3, 4]))) inTurn
          n).program = .done s' → s' = s) ∧
      Standard.Computed Standard.fk ![1, 2, 3, 4] s :=
  encrypts_over_bridge Standard.fk ![1, 2, 3, 4] _ inTurn fair_inTurn

end Vcil.Sm4.Guest
