import Vcil.Lib.Loops

/-!
# Programs that ask

A program computes, and from time to time it asks for something and goes on with the answer.

* `Program ι ω α`: questions `ι`, answers `ω`, result `α`; it is a monad;
* `value answer p`: the result when every question gets the answer of a function;
* `forLoop`: the counting loop of such programs, and `value_forLoop`;
* `Runs`: the program runs while a system moves on and answers it; `Runs.of_ask`, `Runs.of_done`.
-/

namespace Interaction

/-- A result, or a question and how to go on. -/
inductive Program (ι ω α : Type)
  | done (a : α)
  | call (i : ι) (k : ω → Program ι ω α)

namespace Program

variable {ι ω α β : Type}

def bind : Program ι ω α → (α → Program ι ω β) → Program ι ω β
  | done a, f => f a
  | call i k, f => call i fun w => (k w).bind f

instance : Monad (Program ι ω) where
  pure := done
  bind := bind

/-- A single question. -/
def ask (i : ι) : Program ι ω ω := call i done

/-- How the program goes on after an answer. -/
def next : Program ι ω α → ω → Program ι ω α
  | done a, _ => done a
  | call _ k, w => k w

/-- The counting loop, over `lo, ..., lo + n - 1`. -/
def forLoop (lo : ℕ) : ℕ → (ℕ → α → Program ι ω α) → α → Program ι ω α
  | 0, _, s => pure s
  | n + 1, body, s => body lo s >>= forLoop (lo + 1) n body

section Value

variable (answer : ι → ω)

/-- The result when `answer` answers every question. -/
def value : Program ι ω α → α
  | done a => a
  | call i k => (k (answer i)).value

@[simp] theorem value_done (a : α) : (done a : Program ι ω α).value answer = a := rfl

@[simp] theorem value_pure (a : α) : (pure a : Program ι ω α).value answer = a := rfl

@[simp] theorem value_call (i : ι) (k : ω → Program ι ω α) :
    (call i k).value answer = (k (answer i)).value answer := rfl

@[simp] theorem value_ask (i : ι) : (ask i).value answer = answer i := rfl

@[simp] theorem value_bind (p : Program ι ω α) (f : α → Program ι ω β) :
    (p >>= f).value answer = (f (p.value answer)).value answer := by
  induction p with
  | done a => rfl
  | call i k ih => exact ih (answer i)

/-- The loop computes what the loop over the values computes. -/
@[simp] theorem value_forLoop (lo n : ℕ) (body : ℕ → α → Program ι ω α) (s : α) :
    (forLoop lo n body s).value answer =
      Loops.forLoop lo n (fun j s => (body j s).value answer) s := by
  induction n generalizing lo s with
  | zero => rfl
  | succ n ih => rw [forLoop, value_bind, ih, Loops.forLoop]

end Value

/-! ### A system that moves on -/

section Runs

variable {σ : Type} (move : σ → ℕ → σ → Prop) (reads : σ → ι → ω → Prop)

/-- Moves of a system, each of which takes something, and the sum of what they take. -/
inductive Moves : σ → ℕ → σ → Prop
  | refl (s : σ) : Moves s 0 s
  | head {s s' s'' : σ} {m n : ℕ} (hmove : move s m s') (hrest : Moves s' n s'') :
      Moves s (m + n) s''

/-- The program runs while the system moves: it may wait at any time, and the state answers it. -/
inductive Runs : σ → Program ι ω α → ℕ → α → σ → Prop
  | done (s : σ) (a : α) : Runs s (done a) 0 a s
  | wait {s s' s'' : σ} {p : Program ι ω α} {m n : ℕ} {a : α} (hmove : move s m s')
      (hrest : Runs s' p n a s'') : Runs s p (m + n) a s''
  | call {s s' s'' : σ} {i : ι} {k : ω → Program ι ω α} {w : ω} {m n : ℕ} {a : α}
      (hreads : reads s i w) (hmove : move s m s') (hrest : Runs s' (k w) n a s'') :
      Runs s (call i k) (m + n) a s''

variable {move reads} {s s' s'' : σ} {m n : ℕ} {a : α}

theorem Moves.trans (hfirst : Moves move s m s') (hrest : Moves move s' n s'') :
    Moves move s (m + n) s'' := by
  induction hfirst with
  | refl s => rwa [Nat.zero_add]
  | head hmove _ ih =>
    rw [Nat.add_assoc]
    exact .head hmove (ih hrest)

/-- A run that has nothing to ask waits until it returns. -/
theorem Runs.of_done {b : α} (hrun : Runs move reads s (Program.done b) n a s') :
    a = b ∧ Moves move s n s' := by
  generalize hp : Program.done b = p at hrun
  induction hrun with
  | done s a =>
    cases hp
    exact ⟨rfl, .refl s⟩
  | wait hmove _ ih =>
    obtain ⟨ha, hmoves⟩ := ih hp
    exact ⟨ha, .head hmove hmoves⟩
  | call => cases hp

/-- A run with a question: it waits, the state answers, and it goes on from there. -/
theorem Runs.of_call {i : ι} {k : ω → Program ι ω α}
    (hrun : Runs move reads s (Program.call i k) n a s') :
    ∃ u w before after, Moves move s before u ∧ reads u i w ∧
      Runs move reads u (k w) after a s' ∧ n = before + after := by
  generalize hp : Program.call i k = p at hrun
  induction hrun with
  | done => cases hp
  | wait hmove _ ih =>
    obtain ⟨u, w, before, after, hmoves, hreads, hrest, rfl⟩ := ih hp
    exact ⟨u, w, _, after, .head hmove hmoves, hreads, hrest, (Nat.add_assoc ..).symm⟩
  | call hreads hmove hrest =>
    cases hp
    exact ⟨_, _, 0, _, .refl _, hreads, .wait hmove hrest, (Nat.zero_add _).symm⟩

theorem Runs.of_ask {i : ι} {β : Type} {f : ω → Program ι ω β} {b : β}
    (hrun : Runs move reads s (ask i >>= f) n b s') :
    ∃ u w before after, Moves move s before u ∧ reads u i w ∧
      Runs move reads u (f w) after b s' ∧ n = before + after :=
  Runs.of_call hrun

end Runs

end Program

end Interaction
