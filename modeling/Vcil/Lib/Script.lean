import Vcil.Lib.Noninterference

/-!
# Scripts

A computation says what it does, but not when it looks at a part of the state.  A script is a
computation written out: steps that take no notice of that part, and between them the moments in
which one of its cells is used.

* `Cells`: a part of the state in cells, each of which can be hidden;
* `Script`: steps that are blind to the cells, and uses of cells;
* `Script.run`, `Script.uses`: the computation, and the cells it uses with the states it uses them in;
* `Script.run_hide`: a cell that a run does not use does not matter to it;
* `Script.Safe I J U t`: from the states of `I` each use satisfies `U`, and a return leads to `J`;
* `Guarded I U t`: the same with an invariant `I`.  It is a class, so that instance resolution
  follows the structure of a script.
-/

namespace Fallible

variable {ε σ ι κ α β : Type}

/-- A part of the state in cells.  `hide i` covers cell `i` and no other. -/
structure Cells (σ ι κ : Type) where
  value : ι → σ → κ
  hide : ι → σ → σ
  value_hide : ∀ {i j}, j ≠ i → ∀ s, value j (hide i s) = value j s

/-- `m` takes no notice of any cell. -/
class Blind (C : Cells σ ι κ) (m : EStateM ε σ α) : Prop where
  ignores : ∀ i, Ignores (C.hide i) m

/-- A computation that shows where it uses the cells. -/
inductive Script (ε : Type) (C : Cells σ ι κ) : Type → Type 1
  | pure {α : Type} (a : α) : Script ε C α
  | bind {α β : Type} (t : Script ε C α) (k : α → Script ε C β) : Script ε C β
  | step {α : Type} (m : EStateM ε σ α) (h : Blind C m) : Script ε C α
  | use (i : ι) : Script ε C κ

variable {C : Cells σ ι κ}

instance : Monad (Script ε C) where
  pure := .pure
  bind := .bind

namespace Script

/-- What the script does. -/
def run {α : Type} (t : Script ε C α) : EStateM ε σ α :=
  match t with
  | .pure a => Pure.pure a
  | .bind t k => t.run >>= fun a => (k a).run
  | .step m _ => m
  | .use i => C.value i <$> get
termination_by structural t

/-- The cells it uses, each with the state in which it is used. -/
def uses {α : Type} : Script ε C α → σ → List (ι × σ)
  | .pure _, _ => []
  | .bind t k, s => t.uses s ++ match t.run s with
      | .ok a s' => (k a).uses s'
      | .error _ _ => []
  | .step _ _, _ => []
  | .use i, s => [(i, s)]
termination_by structural t => t

section

variable (t : Script ε C α) (k : α → Script ε C β) {s s' : σ}

@[simp] theorem run_pure (a : α) : (Pure.pure a : Script ε C α).run = Pure.pure a := rfl

@[simp] theorem run_bind : (t >>= k).run = t.run >>= fun a => (k a).run := rfl

@[simp] theorem run_step (m : EStateM ε σ α) (h : Blind C m) : (step m h).run = m := rfl

@[simp] theorem run_ite {c : Prop} [Decidable c] (t₁ t₂ : Script ε C α) :
    (if c then t₁ else t₂).run = if c then t₁.run else t₂.run := by
  split <;> rfl

variable {t}

theorem uses_bind_of_ok {a : α} (h : t.run s = .ok a s') :
    (t >>= k).uses s = t.uses s ++ (k a).uses s' := by
  show (bind t k).uses s = _
  rw [uses, h]

theorem uses_bind_of_error {e : ε} (h : t.run s = .error e s') :
    (t >>= k).uses s = t.uses s := by
  show (bind t k).uses s = _
  rw [uses, h, List.append_nil]

end

/-- What a run does not use does not matter to it: from a state with that cell hidden it has the same
outcome, and leaves a state that is the same but for the cell. -/
theorem run_hide {i : ι} (t : Script ε C α) {s s' : σ} (hunused : ∀ u ∈ t.uses s, u.1 ≠ i)
    (halike : Alike (C.hide i) s s') :
    Agree (Alike (C.hide i)) (fun _ => Alike (C.hide i)) (t.run s) (t.run s') := by
  induction t generalizing s s' with
  | pure a => exact ⟨rfl, halike⟩
  | step m h => exact (h.ignores i).agree s s' halike
  | use j =>
    have hj : j ≠ i := hunused (j, s) List.mem_cons_self
    exact ⟨halike.eq (C.value_hide hj), halike⟩
  | bind t k iht ihk =>
    show Agree _ _ ((t.run >>= fun a => (k a).run) s) ((t.run >>= fun a => (k a).run) s')
    have ht := iht (fun u hu => hunused u (by rw [uses]; exact List.mem_append_left _ hu)) halike
    cases hrun : t.run s with
    | ok a u =>
      have huses := uses_bind_of_ok k hrun
      cases hrun' : t.run s' with
      | ok b u' =>
        rw [hrun, hrun'] at ht
        obtain ⟨rfl, halike'⟩ := ht
        rw [bind_of_ok hrun, bind_of_ok hrun']
        refine ihk a (fun v hv => hunused v ?_) halike'
        exact huses ▸ List.mem_append_right _ hv
      | error e u' =>
        rw [hrun, hrun'] at ht
        exact ht.elim
    | error e u =>
      cases hrun' : t.run s' with
      | ok b u' =>
        rw [hrun, hrun'] at ht
        exact ht.elim
      | error e' u' =>
        rw [hrun, hrun'] at ht
        rw [bind_of_error hrun, bind_of_error hrun']
        exact ht

end Script

/-! ### What holds of the uses -/

/-- From a state of `I` each use satisfies `U`, and a return leads to a state of `J`. -/
structure Script.Safe (I J : σ → Prop) (U : ι → σ → Prop) (t : Script ε C α) : Prop where
  uses : ∀ s, I s → ∀ u ∈ t.uses s, U u.1 u.2
  ok : ∀ s a s', I s → t.run s = .ok a s' → J s'

section Safe

variable {I J K : σ → Prop} {U : ι → σ → Prop} {t : Script ε C α} {k : α → Script ε C β}

theorem Script.Safe.bind (ht : t.Safe I J U) (hk : ∀ a, (k a).Safe J K U) :
    (t >>= k).Safe I K U := by
  constructor
  · intro s hI u hu
    cases hrun : t.run s with
    | ok a s' =>
      rw [uses_bind_of_ok k hrun] at hu
      rcases List.mem_append.1 hu with hu | hu
      · exact ht.uses s hI u hu
      · exact (hk a).uses s' (ht.ok s a s' hI hrun) u hu
    | error e s' =>
      rw [uses_bind_of_error k hrun] at hu
      exact ht.uses s hI u hu
  · intro s b s' hI hr
    obtain ⟨a, s₁, hrun, hr⟩ := bind_eq_ok.1 hr
    exact (hk a).ok s₁ b s' (ht.ok s a s₁ hI hrun) hr

theorem Script.Safe.step {m : EStateM ε σ α} (h : Blind C m)
    (hok : ∀ s a s', I s → m s = .ok a s' → J s') : (Script.step m h).Safe I J U := by
  constructor
  · intro s _ u hu
    cases hu
  · exact hok

theorem Script.Safe.use {i : ι} (h : ∀ s, I s → U i s) :
    (Script.use i : Script ε C κ).Safe I I U := by
  constructor
  · intro s hI u hu
    obtain rfl := List.mem_singleton.1 hu
    exact h s hI
  · intro s a s' hI hr
    cases hr
    exact hI

theorem Script.Safe.weaken {I' J' : σ → Prop} (h : t.Safe I J U) (hI : ∀ s, I' s → I s)
    (hJ : ∀ s, J s → J' s) : t.Safe I' J' U :=
  ⟨fun s hs => h.uses s (hI s hs), fun s a s' hs hr => hJ s' (h.ok s a s' (hI s hs) hr)⟩

/-- `Safe`, with an invariant. -/
class Guarded (I : σ → Prop) (U : ι → σ → Prop) (t : Script ε C α) : Prop where
  safe : t.Safe I I U

instance Guarded.pure (a : α) : Guarded I U (Pure.pure a : Script ε C α) := by
  refine ⟨⟨fun s _ u hu => ?_, fun s b s' hI hr => ?_⟩⟩
  · cases hu
  · cases hr
    exact hI

instance Guarded.bind [ht : Guarded I U t] [hk : ∀ a, Guarded I U (k a)] :
    Guarded I U (t >>= k) := ⟨ht.safe.bind fun a => (hk a).safe⟩

instance Guarded.map (f : α → β) [Guarded I U t] : Guarded I U (f <$> t) :=
  inferInstanceAs (Guarded I U (t >>= fun a => Pure.pure (f a)))

instance Guarded.ite {c : Prop} [Decidable c] {t₁ t₂ : Script ε C α} [h₁ : Guarded I U t₁]
    [h₂ : Guarded I U t₂] : Guarded I U (if c then t₁ else t₂) := by
  by_cases h : c
  · rwa [if_pos h]
  · rwa [if_neg h]

/-- A script of steps alone. -/
abbrev OnlySteps (t : Script ε C α) : Prop := Guarded (fun _ => True) (fun _ _ => False) t

instance (m : EStateM ε σ α) (h : Blind C m) : OnlySteps (Script.step m h) :=
  ⟨.step h fun _ _ _ _ _ => trivial⟩

theorem OnlySteps.uses_eq_nil (h : OnlySteps t) (s : σ) : t.uses s = [] :=
  List.eq_nil_iff_forall_not_mem.2 fun u hu => h.safe.uses s trivial u hu

end Safe

end Fallible
