import Vcil.Iss.Counters
import Vcil.Lib.Interaction
import Vcil.Lib.SplitCounter

/-!
# Reading a counter in two halves

`__get_rv_cycle` and `__get_rv_instret` of `core_feature_base.h` read the upper half of a counter,
the lower half, and the upper half again, while the hart goes on and may do anything in between.

* `getRv`: the functions, as programs whose questions are addresses of registers;
* `CountingStep`, `Answers`: a step of the hart with its counters, and the register that it reads;
* `getRv_exact`: the result is the counter at one moment of the run.
-/

namespace Vcil.Iss

open Fallible Interaction SplitCounter

variable {W : Type}

/-! ### The functions -/

/-- The text of the functions, in the branch for 32 bits. -/
def getRv (highAddr lowAddr : CsrAddr) : Program CsrAddr Word (BitVec 64) := do
  let high0 ← Program.ask highAddr
  let low ← Program.ask lowAddr
  let high ← Program.ask highAddr
  let low ← if high0 ≠ high then Program.ask lowAddr else pure low
  return high.setWidth 64 <<< 32 ||| low.setWidth 64

/-- `__get_rv_cycle`. -/
def getRvCycle : Program CsrAddr Word (BitVec 64) := getRv 0xB80 0xB00

/-- `__get_rv_instret`. -/
def getRvInstret : Program CsrAddr Word (BitVec 64) := getRv 0xB82 0xB02

/-- The counter that a function reads. -/
inductive Counter
  | cycle | instret
  deriving DecidableEq, Repr

namespace Counter

/-- The function that reads the counter. -/
def reader : Counter → Program CsrAddr Word (BitVec 64)
  | .cycle => getRvCycle
  | .instret => getRvInstret

/-- Its value. -/
def value : Counter → Counters → BitVec 64
  | .cycle, c => c.mcycle
  | .instret, c => c.minstret

/-- The address of its upper half. -/
def highAddr : Counter → CsrAddr
  | .cycle => 0xB80
  | .instret => 0xB82

/-- The address of its lower half. -/
def lowAddr : Counter → CsrAddr
  | .cycle => 0xB00
  | .instret => 0xB02

theorem reader_eq (r : Counter) : r.reader = getRv r.highAddr r.lowAddr := by
  cases r <;> rfl

end Counter

section

variable (env : Env W) (b : Build)

/-- A step with the counters as they should be, and by how much the counter advances in it. -/
structure CountingStep (r : Counter) (s : TimedHart W × Counters) (n : ℕ)
    (s' : TimedHart W × Counters) : Prop where
  keeps : KeepsCycle env b s.1
  step : runStep env b s.1 = .ok () s'.1
  next : s'.2 = s.2.next env b s.1 s'.1
  advance : n = (r.value s'.2 - r.value s.2).toNat

/-- A read of the register returns the word. -/
def Answers (s : TimedHart W × Counters) (addr : CsrAddr) (w : Word) : Prop :=
  ∃ h', getCsrValue env (currentCycles b s.1) addr s.1.hart = .ok w h'

end

/-! ### The halves of a word -/

theorem append_eq (x y : Word) : x.setWidth 64 <<< 32 ||| y.setWidth 64 = x ++ y := by
  refine BitVec.eq_of_getLsbD_eq fun k hk => ?_
  rw [BitVec.getLsbD_append]
  by_cases hlow : k < 32
  · simp [hlow, hk]
  · have hbeyond : y.getLsbD k = false := BitVec.getLsbD_of_ge y k (by omega)
    simp [hlow, hk, hbeyond]

theorem high_append_low (x : BitVec 64) : high x ++ low x = x := by
  refine BitVec.eq_of_getLsbD_eq fun k hk => ?_
  rw [BitVec.getLsbD_append]
  by_cases hlow : k < 32
  · simp [low, hlow]
  · have hlt : k - 32 < 32 := by omega
    have hsum : 32 + (k - 32) = k := by omega
    simp [high, hlow, hlt, hsum]

/-- The upper half of a number of 64 bits. -/
theorem toNat_high (n : ℕ) : (high (BitVec.ofNat 64 n)).toNat = upper (2 ^ 32) (2 ^ 32) n := by
  simp [high, upper, Nat.shiftRight_eq_div_pow]
  omega

theorem high_eq_iff {m n : ℕ} : high (BitVec.ofNat 64 m) = high (BitVec.ofNat 64 n) ↔
    upper (2 ^ 32) (2 ^ 32) m = upper (2 ^ 32) (2 ^ 32) n := by
  rw [← toNat_high, ← toNat_high, BitVec.toNat_inj]

/-- The upper half read before and after, with the lower half read in between. -/
theorem high_append_of_eq {n d e : ℕ} (hd : d + e < 2 ^ 32)
    (hhigh : high (BitVec.ofNat 64 n) = high (BitVec.ofNat 64 (n + (d + e)))) :
    high (BitVec.ofNat 64 (n + (d + e))) ++ low (BitVec.ofNat 64 (n + d)) =
      BitVec.ofNat 64 (n + d) := by
  have hsame := upper_eq (by decide) hd (high_eq_iff.1 hhigh.symm)
  rw [high_eq_iff.2 hsame]
  exact high_append_low _

/-- The upper half has changed, and the lower half is read again. -/
theorem high_append_of_ne {n d e : ℕ} (hd : d + e < 2 ^ 32)
    (hhigh : high (BitVec.ofNat 64 n) ≠ high (BitVec.ofNat 64 (n + d))) :
    high (BitVec.ofNat 64 (n + d)) ++ low (BitVec.ofNat 64 (n + (d + e))) =
      BitVec.ofNat 64 (n + (d + e)) := by
  have hsame := upper_changed hd fun h => hhigh (high_eq_iff.2 h.symm)
  rw [high_eq_iff.2 hsame]
  exact high_append_low _

/-! ### Runs -/

section Runs

variable {env : Env W} {b : Build} {r : Counter} {s s' u : TimedHart W × Counters} {n : ℕ}

theorem keeps_of_moves (hstores : StoresCounters env)
    (hmoves : Program.Moves (CountingStep env b r) s n s') (hkeeps : Keeps b s.1 s.2) :
    Keeps b s'.1 s'.2 := by
  induction hmoves with
  | refl => exact hkeeps
  | head hmove _ ih =>
    refine ih ?_
    rw [hmove.next]
    exact keeps_step hstores hmove.keeps hkeeps hmove.step

/-- The counter has advanced by the sum of the steps. -/
theorem value_of_moves (hmoves : Program.Moves (CountingStep env b r) s n s') :
    r.value s'.2 = r.value s.2 + BitVec.ofNat 64 n := by
  induction hmoves with
  | refl => exact (BitVec.add_zero _).symm
  | @head s u s' m n hmove _ ih =>
    have hstep : r.value u.2 = r.value s.2 + BitVec.ofNat 64 m := by
      rw [hmove.advance, BitVec.ofNat_toNat, BitVec.setWidth_eq, BitVec.add_comm,
        BitVec.sub_add_cancel]
    rw [ih, hstep, BitVec.ofNat_add, BitVec.add_assoc]

theorem value_ofNat {k : ℕ} (hstart : r.value s.2 = BitVec.ofNat 64 k)
    (hmoves : Program.Moves (CountingStep env b r) s n s') :
    r.value s'.2 = BitVec.ofNat 64 (k + n) := by
  rw [value_of_moves hmoves, hstart, BitVec.ofNat_add]

/-- The registers answer with the halves of the counter. -/
theorem answers_eq (hkeeps : Keeps b u.1 u.2) {addr : CsrAddr} {w : Word}
    (haddr : addr ∈ counterAddrs) (hanswer : Answers env b u addr w) :
    w = u.2.half (csrName env addr) := by
  obtain ⟨h', hread⟩ := hanswer
  obtain ⟨h'', hhalf⟩ := readsAs_of_keeps hkeeps addr haddr
  rw [hread] at hhalf
  cases hhalf
  rfl

theorem answers_high (hkeeps : Keeps b u.1 u.2) {w : Word}
    (hanswer : Answers env b u r.highAddr w) : w = high (r.value u.2) := by
  cases r with
  | cycle => exact answers_eq hkeeps (by decide) hanswer
  | instret => exact answers_eq hkeeps (by decide) hanswer

theorem answers_low (hkeeps : Keeps b u.1 u.2) {w : Word}
    (hanswer : Answers env b u r.lowAddr w) : w = low (r.value u.2) := by
  cases r with
  | cycle => exact answers_eq hkeeps (by decide) hanswer
  | instret => exact answers_eq hkeeps (by decide) hanswer

/-- While the counter advances by less than `2 ^ 32`, the function returns what it is at one moment
of the run, whatever else the hart does between the reads. -/
theorem getRv_exact (hstores : StoresCounters env) (hstart : ReadsAs env b s.1 s.2) {x : BitVec 64}
    (hrun : Program.Runs (CountingStep env b r) (Answers env b) s r.reader n x s')
    (hn : n < 2 ^ 32) :
    ∃ u before after, Program.Moves (CountingStep env b r) s before u ∧
      Program.Moves (CountingStep env b r) u after s' ∧ before + after = n ∧ x = r.value u.2 := by
  have hkeeps := keeps_of_readsAs hstart
  rw [r.reader_eq] at hrun
  obtain ⟨s₀, high0, n₀, k₀, hmoves₀, hread₀, hrun₀, rfl⟩ := hrun.of_ask
  obtain ⟨s₁, lowWord, n₁, k₁, hmoves₁, hread₁, hrun₁, rfl⟩ := hrun₀.of_ask
  obtain ⟨s₂, highWord, n₂, k₂, hmoves₂, hread₂, hrun₂, rfl⟩ := hrun₁.of_ask
  have hkeeps₀ := keeps_of_moves hstores hmoves₀ hkeeps
  have hkeeps₁ := keeps_of_moves hstores hmoves₁ hkeeps₀
  have hkeeps₂ := keeps_of_moves hstores hmoves₂ hkeeps₁
  obtain ⟨k, hvalue₀⟩ : ∃ k, r.value s₀.2 = BitVec.ofNat 64 k :=
    ⟨_, by rw [BitVec.ofNat_toNat, BitVec.setWidth_eq]⟩
  have hvalue₁ := value_ofNat hvalue₀ hmoves₁
  have hvalue₂ := value_ofNat hvalue₀ (hmoves₁.trans hmoves₂)
  rw [answers_high hkeeps₀ hread₀, answers_high hkeeps₂ hread₂, hvalue₀, hvalue₂] at hrun₂
  split_ifs at hrun₂ with hchanged
  · -- the lower half is read once more
    obtain ⟨s₃, lowWord', n₃, k₃, hmoves₃, hread₃, hrun₃, rfl⟩ := hrun₂.of_ask
    have hkeeps₃ := keeps_of_moves hstores hmoves₃ hkeeps₂
    have hvalue₃ := value_ofNat hvalue₀ ((hmoves₁.trans hmoves₂).trans hmoves₃)
    obtain ⟨rfl, hrest⟩ := hrun₃.of_done
    refine ⟨s₃, _, _, ((hmoves₀.trans hmoves₁).trans hmoves₂).trans hmoves₃, hrest, by omega, ?_⟩
    rw [append_eq, answers_low hkeeps₃ hread₃, hvalue₃]
    exact high_append_of_ne (by omega) hchanged
  · obtain ⟨rfl, hrest⟩ := hrun₂.of_done
    refine ⟨s₁, _, _, hmoves₀.trans hmoves₁, hmoves₂.trans hrest, by omega, ?_⟩
    rw [append_eq, answers_low hkeeps₁ hread₁, hvalue₁]
    exact high_append_of_eq (by omega) (not_not.1 hchanged)

end Runs

/-- One step of the platform with its counters. -/
def stepCounters (s : TimedHart BareMemory × Counters) : TimedHart BareMemory × Counters :=
  let t := final (runStep Env.counters .plain s.1)
  (t, s.2.next Env.counters .plain s.1 t)

/-- The states of a program that reads `minstret` over and over. -/
def reading : ℕ → TimedHart BareMemory × Counters
  | 0 => (onlyInstr 0xB02060F3, ⟨0, 0⟩)
  | n + 1 => stepCounters (reading n)

theorem countingStep_reading {k : ℕ} (hk : k < 3) :
    CountingStep Env.counters .plain .instret (reading k) 1 (reading (k + 1)) := by
  have hsteps : k = 0 ∨ k = 1 ∨ k = 2 := by omega
  rcases hsteps with rfl | rfl | rfl
  all_goals
    refine ⟨⟨fun _ h hf hw _ => ?_, fun _ _ => by decide, fun _ hb => ?_⟩, rfl, rfl, by decide⟩
    · cases hf
      exact absurd hw (by decide)
    · cases hb

/-- The lower half is read when one instruction has been counted. -/
theorem getRv_exact_reading : ∃ u before after,
    Program.Moves (CountingStep Env.counters .plain .instret) (reading 0) before u ∧
      Program.Moves (CountingStep Env.counters .plain .instret) u after (reading 3) ∧
      before + after = 3 ∧ 1 = Counter.instret.value u.2 := by
  have hhigh : Answers Env.counters .plain (reading 0) 0xB82 0 := ⟨_, rfl⟩
  have hlow : Answers Env.counters .plain (reading 1) 0xB02 1 := ⟨_, rfl⟩
  have hagain : Answers Env.counters .plain (reading 2) 0xB82 0 := ⟨_, rfl⟩
  have hrun : Program.Runs (CountingStep Env.counters .plain .instret) (Answers Env.counters .plain)
      (reading 0) Counter.instret.reader (1 + (1 + (1 + 0))) 1 (reading 3) :=
    .call hhigh (countingStep_reading (by decide))
      (.call hlow (countingStep_reading (by decide))
        (.call hagain (countingStep_reading (by decide)) (.done _ _)))
  exact getRv_exact storesCounters_counters (readsAs_onlyInstr _) hrun (by decide)

end Vcil.Iss
