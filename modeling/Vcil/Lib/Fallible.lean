import Mathlib.Order.Defs.Unbundled

/-!
# Computations that raise

`EStateM ε σ α` is a computation over a state `σ` that returns a value or raises an exception; the
state survives the exception, as objects do in C++.

* `bind_eq_ok`, `bind_eq_error`, `bind_of_ok`, `bind_of_error`: how a sequence ends;
* `Respects R m`: whatever the outcome, the preorder `R` relates the state before `m` to the state
  after it.  It is a class, so that instance resolution follows the structure of a computation;
* `Closes R L m`: the same, but for a computation that satisfies `L`, with which `m` may end;
* `Lockstep E P m₁ m₂ Q`: from states related by `P` two computations have the same outcome, with
  states related by `Q` after a value and by `E` after an exception;
* one rule for each way to put computations together.
-/

namespace Fallible

variable {ε σ τ α β : Type}

/-- The state after a computation, whatever the outcome. -/
def final : EStateM.Result ε σ α → σ
  | .ok _ s => s
  | .error _ s => s

/-- A sequence that returns has two parts that return. -/
theorem bind_eq_ok {m : EStateM ε σ α} {k : α → EStateM ε σ β} {b : β} {s t : σ} :
    (m >>= k) s = .ok b t ↔ ∃ a s', m s = .ok a s' ∧ k a s' = .ok b t := by
  show EStateM.bind m k s = .ok b t ↔ _
  unfold EStateM.bind
  cases m s with
  | ok a s' =>
    constructor
    · exact fun h => ⟨a, s', rfl, h⟩
    · rintro ⟨_, _, h, hk⟩
      cases h
      exact hk
  | error e s' =>
    constructor
    · intro h
      cases h
    · rintro ⟨_, _, h, -⟩
      cases h

/-- A sequence that raises does so in one of its parts. -/
theorem bind_eq_error {m : EStateM ε σ α} {k : α → EStateM ε σ β} {e : ε} {s t : σ} :
    (m >>= k) s = .error e t ↔
      m s = .error e t ∨ ∃ a s', m s = .ok a s' ∧ k a s' = .error e t := by
  show EStateM.bind m k s = .error e t ↔ _
  unfold EStateM.bind
  cases m s with
  | ok a s' =>
    constructor
    · exact fun h => .inr ⟨a, s', rfl, h⟩
    · rintro (h | ⟨_, _, h, hk⟩)
      · cases h
      · cases h
        exact hk
  | error e' s' =>
    constructor
    · intro h
      cases h
      exact .inl rfl
    · rintro (h | ⟨_, _, h, -⟩)
      · cases h
        rfl
      · cases h

theorem bind_of_ok {m : EStateM ε σ α} {k : α → EStateM ε σ β} {a : α} {s t : σ}
    (h : m s = .ok a t) : (m >>= k) s = k a t := by
  show EStateM.bind m k s = _
  unfold EStateM.bind
  rw [h]

theorem bind_of_error {m : EStateM ε σ α} {k : α → EStateM ε σ β} {e : ε} {s t : σ}
    (h : m s = .error e t) : (m >>= k) s = .error e t := by
  show EStateM.bind m k s = _
  unfold EStateM.bind
  rw [h]

/-! ### One computation -/

/-- `R` relates every state to the one `m` leaves. -/
class Respects (R : σ → σ → Prop) (m : EStateM ε σ α) : Prop where
  rel : ∀ s, R s (final (m s))

section Respects

variable {R : σ → σ → Prop} [IsPreorder σ R]

instance Respects.pure (a : α) : Respects (ε := ε) R (pure a) := ⟨fun s => refl_of R s⟩

instance Respects.throw (e : ε) : Respects R (throw e : EStateM ε σ α) := ⟨fun s => refl_of R s⟩

instance Respects.get : Respects R (get : EStateM ε σ σ) := ⟨fun s => refl_of R s⟩

omit [IsPreorder σ R] in
theorem Respects.modify {f : σ → σ} (h : ∀ s, R s (f s)) :
    Respects R (modify f : EStateM ε σ Unit) := ⟨h⟩

omit [IsPreorder σ R] in
theorem Respects.ok {m : EStateM ε σ α} [hm : Respects R m] {s t : σ} {a : α} (h : m s = .ok a t) :
    R s t := by
  have hs := hm.rel s
  rwa [h] at hs

instance Respects.bind {m : EStateM ε σ α} {k : α → EStateM ε σ β} [hm : Respects R m]
    [hk : ∀ a, Respects R (k a)] : Respects R (m >>= k) := by
  constructor
  intro s
  have hs := hm.rel s
  show R s (final (EStateM.bind m k s))
  unfold EStateM.bind
  cases hms : m s with
  | ok a t =>
    rw [hms] at hs
    exact trans_of R hs ((hk a).rel t)
  | error e t =>
    rw [hms] at hs
    exact hs

instance Respects.ite {c : Prop} [Decidable c] {m₁ m₂ : EStateM ε σ α} [Respects R m₁]
    [Respects R m₂] : Respects R (if c then m₁ else m₂) := by
  by_cases h : c
  · rwa [if_pos h]
  · rwa [if_neg h]

theorem Respects.tryCatch {m : EStateM ε σ α} {k : ε → EStateM ε σ α} (hm : Respects R m)
    (hk : ∀ e, Respects R (k e)) : Respects R (MonadExcept.tryCatch m k) := by
  constructor
  intro s
  have hs := hm.rel s
  show R s (final (EStateM.tryCatch m k s))
  unfold EStateM.tryCatch
  cases hms : m s with
  | ok a t =>
    simp only [hms] at hs ⊢
    exact hs
  | error e t =>
    simp only [hms] at hs ⊢
    exact trans_of R hs ((hk e).rel t)

end Respects

/-- What `m` does is related by `R`, except that it may end with a computation that satisfies `L`. -/
structure Closes (R : σ → σ → Prop) (L : EStateM ε σ α → Prop) (m : EStateM ε σ α) : Prop where
  rel : ∀ s, R s (final (m s)) ∨ ∃ k s', L k ∧ R s s' ∧ m s = k s'

section Closes

variable {R : σ → σ → Prop} {L : EStateM ε σ α → Prop} {m : EStateM ε σ α}

theorem Closes.of_respects [hm : Respects R m] : Closes R L m := ⟨fun s => .inl (hm.rel s)⟩

theorem Closes.ite {c : Prop} [Decidable c] {m₁ m₂ : EStateM ε σ α} (h₁ : c → Closes R L m₁)
    (h₂ : ¬c → Closes R L m₂) : Closes R L (if c then m₁ else m₂) := by
  by_cases h : c
  · rw [if_pos h]
    exact h₁ h
  · rw [if_neg h]
    exact h₂ h

variable [IsPreorder σ R]

theorem Closes.last (h : L m) : Closes R L m := ⟨fun s => .inr ⟨m, s, h, refl_of R s, rfl⟩⟩

theorem Closes.bind {m : EStateM ε σ β} {k : β → EStateM ε σ α} [hm : Respects R m]
    (hk : ∀ b, Closes R L (k b)) : Closes R L (m >>= k) := by
  constructor
  intro s
  have hs := hm.rel s
  cases hms : m s with
  | ok b t =>
    rw [hms] at hs
    rw [bind_of_ok hms]
    rcases (hk b).rel t with ht | ⟨last, t', hlast, ht, heq⟩
    · exact .inl (trans_of R hs ht)
    · exact .inr ⟨last, t', hlast, trans_of R hs ht, heq⟩
  | error e t =>
    rw [hms] at hs
    rw [bind_of_error hms]
    exact .inl hs

end Closes

/-! ### Two computations -/

/-- The same value or the same exception, with related states. -/
def Agree (E : σ → τ → Prop) (Q : α → σ → τ → Prop) :
    EStateM.Result ε σ α → EStateM.Result ε τ α → Prop
  | .ok a s, .ok b t => a = b ∧ Q a s t
  | .error e s, .error e' t => e = e' ∧ E s t
  | _, _ => False

theorem Agree.weaken {E E' : σ → τ → Prop} {Q Q' : α → σ → τ → Prop}
    {r₁ : EStateM.Result ε σ α} {r₂ : EStateM.Result ε τ α} (h : Agree E Q r₁ r₂)
    (hE : ∀ s t, E s t → E' s t) (hQ : ∀ a s t, Q a s t → Q' a s t) : Agree E' Q' r₁ r₂ := by
  cases r₁ <;> cases r₂
  · exact ⟨h.1, hQ _ _ _ h.2⟩
  · exact h.elim
  · exact h.elim
  · exact ⟨h.1, hE _ _ h.2⟩

/-- From states related by `P` the two computations agree. -/
def Lockstep (E P : σ → τ → Prop) (m₁ : EStateM ε σ α) (m₂ : EStateM ε τ α)
    (Q : α → σ → τ → Prop) : Prop := ∀ s t, P s t → Agree E Q (m₁ s) (m₂ t)

section Lockstep

variable {E P P' : σ → τ → Prop} {m₁ : EStateM ε σ α} {m₂ : EStateM ε τ α} {Q : α → σ → τ → Prop}

theorem Lockstep.pure {a : α} (h : ∀ s t, P s t → Q a s t) :
    Lockstep (ε := ε) E P (pure a) (pure a) Q := fun s t hP => ⟨rfl, h s t hP⟩

theorem Lockstep.bind {k₁ : α → EStateM ε σ β} {k₂ : α → EStateM ε τ β}
    {Q' : β → σ → τ → Prop} (hm : Lockstep E P m₁ m₂ Q)
    (hk : ∀ a, Lockstep E (Q a) (k₁ a) (k₂ a) Q') : Lockstep E P (m₁ >>= k₁) (m₂ >>= k₂) Q' := by
  intro s t hP
  have hs := hm s t hP
  show Agree E Q' (EStateM.bind m₁ k₁ s) (EStateM.bind m₂ k₂ t)
  unfold EStateM.bind
  cases h₁ : m₁ s <;> cases h₂ : m₂ t <;> rw [h₁, h₂] at hs
  · obtain ⟨rfl, hQ⟩ := hs
    exact hk _ _ _ hQ
  · exact hs.elim
  · exact hs.elim
  · exact hs

theorem Lockstep.tryCatch {E' : σ → τ → Prop} {k₁ : ε → EStateM ε σ α} {k₂ : ε → EStateM ε τ α}
    (hm : Lockstep E' P m₁ m₂ Q) (hk : ∀ e, Lockstep E E' (k₁ e) (k₂ e) Q) :
    Lockstep E P (MonadExcept.tryCatch m₁ k₁) (MonadExcept.tryCatch m₂ k₂) Q := by
  intro s t hP
  have hs := hm s t hP
  show Agree E Q (EStateM.tryCatch m₁ k₁ s) (EStateM.tryCatch m₂ k₂ t)
  unfold EStateM.tryCatch
  cases h₁ : m₁ s <;> cases h₂ : m₂ t <;> rw [h₁, h₂] at hs
  · exact hs
  · exact hs.elim
  · exact hs.elim
  · obtain ⟨rfl, hE⟩ := hs
    exact hk _ _ _ hE

theorem Lockstep.weaken {Q' : α → σ → τ → Prop} (hm : Lockstep E P m₁ m₂ Q)
    (hP : ∀ s t, P' s t → P s t) (hQ : ∀ a s t, Q a s t → Q' a s t) :
    Lockstep E P' m₁ m₂ Q' := fun s t h => (hm s t (hP s t h)).weaken (fun _ _ hE => hE) hQ

/-- What the first computation keeps. -/
theorem Lockstep.keeping {φ : σ → Prop} (hm : Lockstep E P m₁ m₂ Q)
    (hφ : ∀ s, φ s → φ (final (m₁ s))) :
    Lockstep E (fun s t => P s t ∧ φ s) m₁ m₂ fun a s t => Q a s t ∧ φ s := by
  rintro s t ⟨hP, hs⟩
  have hm := hm s t hP
  have hφ := hφ s hs
  cases h₁ : m₁ s <;> cases h₂ : m₂ t <;> rw [h₁, h₂] at hm
  · rw [h₁] at hφ
    exact ⟨hm.1, hm.2, hφ⟩
  · exact hm.elim
  · exact hm.elim
  · exact hm

theorem Lockstep.assume {φ : Prop} (h : φ → Lockstep E P m₁ m₂ Q) :
    Lockstep E (fun s t => P s t ∧ φ) m₁ m₂ Q := fun s t hP => h hP.2 s t hP.1

/-- A step that only the second computation makes. -/
theorem Lockstep.right {c : EStateM ε τ β} {k : β → EStateM ε τ α} {P' : β → σ → τ → Prop}
    (hc : ∀ s t, P s t → ∃ u t', c t = .ok u t' ∧ P' u s t')
    (hk : ∀ u, Lockstep E (P' u) m₁ (k u) Q) : Lockstep E P m₁ (c >>= k) Q := by
  intro s t hP
  obtain ⟨u, t', hct, hP'⟩ := hc s t hP
  show Agree E Q (m₁ s) (EStateM.bind c k t)
  unfold EStateM.bind
  rw [hct]
  exact hk u s t' hP'

/-- … at its end. -/
theorem Lockstep.bind_right {m₁ : EStateM ε σ Unit} {m₂ : EStateM ε τ Unit} {c : EStateM ε τ Unit}
    {Q : Unit → σ → τ → Prop} (hm : Lockstep E P m₁ m₂ fun _ => P')
    (hc : ∀ s t, P' s t → ∃ u t', c t = .ok u t' ∧ Q u s t') :
    Lockstep E P m₁ (m₂ >>= fun _ => c) Q := by
  intro s t hP
  have hs := hm s t hP
  show Agree E Q (m₁ s) (EStateM.bind m₂ (fun _ => c) t)
  unfold EStateM.bind
  cases h₁ : m₁ s <;> cases h₂ : m₂ t <;> rw [h₁, h₂] at hs
  · obtain ⟨u, t', hct, hQ⟩ := hc _ _ hs.2
    simp only [hct]
    exact ⟨rfl, hQ⟩
  · exact hs.elim
  · exact hs.elim
  · exact hs

theorem Lockstep.get_bind {k₁ : σ → EStateM ε σ α} {k₂ : τ → EStateM ε τ α}
    (hk : ∀ s t, P s t → Lockstep E P (k₁ s) (k₂ t) Q) :
    Lockstep E P (MonadState.get >>= k₁) (MonadState.get >>= k₂) Q :=
  fun s t hP => hk s t hP s t hP

theorem Lockstep.ite {c : Prop} [Decidable c] {n₁ : EStateM ε σ α} {n₂ : EStateM ε τ α}
    (hm : c → Lockstep E P m₁ m₂ Q) (hn : ¬c → Lockstep E P n₁ n₂ Q) :
    Lockstep E P (if c then m₁ else n₁) (if c then m₂ else n₂) Q := by
  by_cases h : c
  · rw [if_pos h, if_pos h]
    exact hm h
  · rw [if_neg h, if_neg h]
    exact hn h

end Lockstep

end Fallible
