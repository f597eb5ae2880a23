import Vcil.Lib.Fallible

/-!
# Noninterference

A computation ignores a part of the state if what is there changes neither its outcome nor what it
leaves in the rest of the state.

* `Alike v s t`: the states are the same in the view `v`, a function that erases the part;
* `Ignores v m`: from states that are alike `m` has the same outcome, and leaves states that are
  alike.  It is a class, so that instance resolution follows the structure of a computation;
* one rule for each way to put computations together.
-/

namespace Fallible

variable {ε σ α β : Type}

/-- The two states differ only in what `v` erases. -/
def Alike (v : σ → σ) (s t : σ) : Prop := v s = v t

/-- What can be seen in the view is the same. -/
theorem Alike.eq {v : σ → σ} {s t : σ} (h : Alike v s t) {f : σ → α} (hf : ∀ s, f (v s) = f s) :
    f s = f t :=
  calc f s = f (v s) := (hf s).symm
    _ = f (v t) := congrArg f h
    _ = f t := hf t

/-- `m` takes no notice of what `v` erases. -/
class Ignores (v : σ → σ) (m : EStateM ε σ α) : Prop where
  agree : Lockstep (Alike v) (Alike v) m m fun _ => Alike v

namespace Ignores

variable {v : σ → σ}

instance pure (a : α) : Ignores (ε := ε) v (pure a) := ⟨.pure fun _ _ h => h⟩

instance throw (e : ε) : Ignores v (throw e : EStateM ε σ α) := ⟨fun _ _ h => ⟨rfl, h⟩⟩

theorem seq {m : EStateM ε σ α} {k : α → EStateM ε σ β} (hm : Ignores v m)
    (hk : ∀ a, Ignores v (k a)) : Ignores v (m >>= k) := ⟨hm.agree.bind fun a => (hk a).agree⟩

instance bind {m : EStateM ε σ α} {k : α → EStateM ε σ β} [hm : Ignores v m]
    [hk : ∀ a, Ignores v (k a)] : Ignores v (m >>= k) := hm.seq hk

instance map (f : α → β) {m : EStateM ε σ α} [Ignores v m] : Ignores v (f <$> m) :=
  inferInstanceAs (Ignores v (m >>= fun a => Pure.pure (f a)))

instance ite {c : Prop} [Decidable c] {m₁ m₂ : EStateM ε σ α} [h₁ : Ignores v m₁]
    [h₂ : Ignores v m₂] : Ignores v (if c then m₁ else m₂) :=
  ⟨.ite (fun _ => h₁.agree) fun _ => h₂.agree⟩

/-- What follows a look at the state may use what `v` shows. -/
theorem get_bind {k : σ → EStateM ε σ α} (hv : ∀ s, k (v s) = k s) (hk : ∀ s, Ignores v (k s)) :
    Ignores v (get >>= k) := by
  refine ⟨.get_bind fun s t h => ?_⟩
  rw [h.eq hv]
  exact (hk t).agree

/-- A change that does not depend on what `v` erases. -/
theorem of_modify {f : σ → σ} (hf : ∀ s, v (f (v s)) = v (f s)) :
    Ignores v (modify f : EStateM ε σ Unit) := by
  refine ⟨fun s t h => ⟨rfl, ?_⟩⟩
  calc v (f s) = v (f (v s)) := (hf s).symm
    _ = v (f (v t)) := by rw [h]
    _ = v (f t) := hf t

/-- A change of what `v` shows. -/
theorem of_modify_comm {f : σ → σ} (hf : ∀ s, f (v s) = v (f s)) :
    Ignores v (modify f : EStateM ε σ Unit) := by
  refine ⟨fun s t h => ⟨rfl, ?_⟩⟩
  calc v (f s) = f (v s) := (hf s).symm
    _ = f (v t) := congrArg f h
    _ = v (f t) := hf t

/-- … with a coarser relation after an exception. -/
theorem lockstep {E : σ → σ → Prop} (hE : ∀ s t, Alike v s t → E s t) (m : EStateM ε σ α)
    [h : Ignores v m] : Lockstep E (Alike v) m m fun _ => Alike v :=
  fun s t halike => (h.agree s t halike).weaken hE fun _ _ _ h => h

end Ignores

end Fallible
