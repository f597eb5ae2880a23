import Vcil.Lib.Fallible

/-!
# Computations by their parts

What a long computation does follows from what its parts do.  The parts are described once; every
property that a sequence inherits from them then holds of the whole.

* `Made P m`: `m` is put together from parts that satisfy `P`;
* `Respects`, `Avoids`, `Ends`: properties a sequence inherits;
* `Staged Keep Last Free m`: parts that keep something, then perhaps one that may write, then parts
  that raise nothing of a kind;
* `Staged.undone`: an exception of that kind leaves the thing as it was.
-/

namespace Fallible

variable {ε σ α β : Type}

/-! ### Parts -/

/-- Put together from parts that satisfy `P`.  It is a class, so that instance resolution follows the
structure of a computation. -/
class inductive Made (P : (α : Type) → EStateM ε σ α → Prop) :
    {α : Type} → EStateM ε σ α → Prop
  | part {α : Type} {m : EStateM ε σ α} (h : P α m) : Made P m
  | pure {α : Type} (a : α) : Made P (pure a)
  | bind {α β : Type} {m : EStateM ε σ α} {k : α → EStateM ε σ β} (hm : Made P m)
      (hk : ∀ a, Made P (k a)) : Made P (m >>= k)

section Made

variable {P : (α : Type) → EStateM ε σ α → Prop}

instance (a : α) : Made P (pure a) := .pure a

instance {m : EStateM ε σ α} {k : α → EStateM ε σ β} [hm : Made P m] [hk : ∀ a, Made P (k a)] :
    Made P (m >>= k) := .bind hm hk

instance {m : EStateM ε σ α} (f : α → β) [Made P m] : Made P (f <$> m) :=
  inferInstanceAs (Made P (m >>= fun a => Pure.pure (f a)))

instance {c : Prop} [Decidable c] {m n : EStateM ε σ α} [Made P m] [Made P n] :
    Made P (if c then m else n) := by
  by_cases h : c
  · rwa [if_pos h]
  · rwa [if_neg h]

/-- Parts may be put together from parts. -/
theorem Made.trans {Q : (α : Type) → EStateM ε σ α → Prop} {m : EStateM ε σ α} (h : Made P m)
    (hPQ : ∀ {α : Type} {m : EStateM ε σ α}, P α m → Made Q m) : Made Q m := by
  induction h with
  | part h => exact hPQ h
  | pure a => exact .pure a
  | bind _ _ ihm ihk => exact .bind ihm ihk

theorem Made.respects {R : σ → σ → Prop} [IsPreorder σ R] {m : EStateM ε σ α} (h : Made P m)
    (hP : ∀ {α : Type} {m : EStateM ε σ α}, P α m → Respects R m) : Respects R m := by
  induction h with
  | part h => exact hP h
  | pure a => infer_instance
  | bind _ _ ihm ihk => infer_instance

/-- No exception of a kind. -/
def Avoids (T : ε → Prop) (m : EStateM ε σ α) : Prop :=
  ∀ s e s', m s = .error e s' → ¬T e

theorem Made.avoids {T : ε → Prop} {m : EStateM ε σ α} (h : Made P m)
    (hP : ∀ {α : Type} {m : EStateM ε σ α}, P α m → Avoids T m) : Avoids T m := by
  induction h with
  | part h => exact hP h
  | pure a =>
    intro s e s' hr
    cases hr
  | @bind _ _ m k _ _ ihm ihk =>
    intro s e s' hr
    cases hm : m s with
    | ok a t =>
      rw [bind_of_ok hm] at hr
      exact ihk a t e s' hr
    | error e' t =>
      rw [bind_of_error hm] at hr
      cases hr
      exact ihm s e s' hm

/-- `R` relates the states around a return, `E` those around an exception. -/
structure Ends (R : σ → σ → Prop) (E : ε → σ → σ → Prop) (m : EStateM ε σ α) : Prop where
  ok : ∀ {s a s'}, m s = .ok a s' → R s s'
  error : ∀ {s e s'}, m s = .error e s' → E e s s'

section Ends

variable {R : σ → σ → Prop} {E : ε → σ → σ → Prop}

theorem Ends.of_respects {m : EStateM ε σ α} (hm : Respects R m)
    (hE : ∀ s e s', m s = .error e s' → E e s s') : Ends R E m := by
  constructor
  · intro s a s' hr
    have hs := hm.rel s
    rwa [hr] at hs
  · intro s e s' hr
    exact hE s e s' hr

theorem Ends.pure [IsPreorder σ R] (a : α) : Ends (ε := ε) R E (Pure.pure a) := by
  constructor
  · intro s b s' hr
    cases hr
    exact refl_of R s
  · intro s e s' hr
    cases hr

theorem Ends.bind [IsPreorder σ R] (hRE : ∀ e s t u, R s t → E e t u → E e s u)
    {m : EStateM ε σ α} {k : α → EStateM ε σ β} (hm : Ends R E m) (hk : ∀ a, Ends R E (k a)) :
    Ends R E (m >>= k) := by
  constructor
  · intro s b s' hr
    obtain ⟨a, t, hms, hks⟩ := bind_eq_ok.1 hr
    exact trans_of R (hm.ok hms) ((hk a).ok hks)
  · intro s e s' hr
    cases hms : m s with
    | ok a t =>
      rw [bind_of_ok hms] at hr
      exact hRE e s t s' (hm.ok hms) ((hk a).error hr)
    | error e' t =>
      rw [bind_of_error hms] at hr
      cases hr
      exact hm.error hms

theorem Made.ends [IsPreorder σ R] (hRE : ∀ e s t u, R s t → E e t u → E e s u)
    {m : EStateM ε σ α} (h : Made P m)
    (hP : ∀ {α : Type} {m : EStateM ε σ α}, P α m → Ends R E m) : Ends R E m := by
  induction h with
  | part h => exact hP h
  | pure a => exact .pure a
  | bind _ _ ihm ihk => exact .bind hRE ihm ihk

end Ends

end Made

/-! ### Stages -/

/-- Parts of `Keep`, then at most one of `Last`, then parts of `Free`. -/
class inductive Staged (Keep Last Free : (α : Type) → EStateM ε σ α → Prop) :
    {α : Type} → EStateM ε σ α → Prop
  | keep {α : Type} {m : EStateM ε σ α} (h : Made Keep m) : Staged Keep Last Free m
  | last {α : Type} {m : EStateM ε σ α} (h : Last α m) : Staged Keep Last Free m
  | free {α : Type} {m : EStateM ε σ α} (h : Made Free m) : Staged Keep Last Free m
  | afterKeep {α β : Type} {m : EStateM ε σ α} {k : α → EStateM ε σ β} (hm : Made Keep m)
      (hk : ∀ a, Staged Keep Last Free (k a)) : Staged Keep Last Free (m >>= k)
  | beforeFree {α β : Type} {m : EStateM ε σ α} {k : α → EStateM ε σ β}
      (hm : Staged Keep Last Free m) (hk : ∀ a, Made Free (k a)) : Staged Keep Last Free (m >>= k)

section Staged

variable {Keep Last Free : (α : Type) → EStateM ε σ α → Prop}

instance (priority := low) {m : EStateM ε σ α} [h : Made Keep m] : Staged Keep Last Free m :=
  .keep h

instance (priority := low) {m : EStateM ε σ α} [h : Made Free m] : Staged Keep Last Free m :=
  .free h

instance (priority := low) {m : EStateM ε σ α} {k : α → EStateM ε σ β}
    [hm : Staged Keep Last Free m] [hk : ∀ a, Made Free (k a)] :
    Staged Keep Last Free (m >>= k) := .beforeFree hm hk

instance {m : EStateM ε σ α} {k : α → EStateM ε σ β} [hm : Made Keep m]
    [hk : ∀ a, Staged Keep Last Free (k a)] : Staged Keep Last Free (m >>= k) := .afterKeep hm hk

instance {c : Prop} [Decidable c] {m n : EStateM ε σ α} [Staged Keep Last Free m]
    [Staged Keep Last Free n] : Staged Keep Last Free (if c then m else n) := by
  by_cases h : c
  · rwa [if_pos h]
  · rwa [if_neg h]

theorem Staged.made {P : (α : Type) → EStateM ε σ α → Prop} {m : EStateM ε σ α}
    (h : Staged Keep Last Free m)
    (hkeep : ∀ {α : Type} {m : EStateM ε σ α}, Keep α m → Made P m)
    (hlast : ∀ {α : Type} {m : EStateM ε σ α}, Last α m → Made P m)
    (hfree : ∀ {α : Type} {m : EStateM ε σ α}, Free α m → Made P m) : Made P m := by
  induction h with
  | keep h => exact h.trans hkeep
  | last h => exact hlast h
  | free h => exact h.trans hfree
  | afterKeep hm _ ihk => exact .bind (hm.trans hkeep) ihk
  | beforeFree _ hk ihm => exact .bind ihm fun a => (hk a).trans hfree

/-- An exception of the kind `T` leaves behind a state that `R` relates to the one before. -/
def Undone (R : σ → σ → Prop) (T : ε → Prop) (m : EStateM ε σ α) : Prop :=
  ∀ s e s', m s = .error e s' → T e → R s s'

section Undone

variable {R : σ → σ → Prop} {T : ε → Prop} {m : EStateM ε σ α} {k : α → EStateM ε σ β}

theorem Undone.of_respects (hm : Respects R m) : Undone R T m := by
  intro s e s' hr _
  have hs := hm.rel s
  rwa [hr] at hs

theorem Undone.of_avoids (hm : Avoids T m) : Undone R T m :=
  fun s e s' hr hT => absurd hT (hm s e s' hr)

theorem Undone.afterKeep [IsPreorder σ R] (hm : Respects R m) (hk : ∀ a, Undone R T (k a)) :
    Undone R T (m >>= k) := by
  intro s e s' hr hT
  have hs := hm.rel s
  rcases bind_eq_error.1 hr with hms | ⟨a, t, hms, hkt⟩
  · rwa [hms] at hs
  · rw [hms] at hs
    exact trans_of R hs (hk a t e s' hkt hT)

/-- A check in front that may end in `raise`. -/
theorem Undone.guarded [IsPreorder σ R] {check : EStateM ε σ Bool} {raise m : EStateM ε σ α}
    (hcheck : Respects R check) (hraise : Respects R raise) (hm : Undone R T m) :
    Undone R T (check >>= fun invalid => if invalid then raise else m) := by
  refine .afterKeep hcheck fun invalid => ?_
  by_cases hinvalid : invalid = true
  · rw [if_pos hinvalid]
    exact .of_respects hraise
  · rw [if_neg hinvalid]
    exact hm

/-- What follows raises nothing of the kind from the states that the first part leaves. -/
theorem Undone.before (hm : Undone R T m)
    (hk : ∀ s a t e s', m s = .ok a t → k a t = .error e s' → ¬T e) : Undone R T (m >>= k) := by
  intro s e s' hr hT
  rcases bind_eq_error.1 hr with hms | ⟨a, t, hms, hkt⟩
  · exact hm s e s' hms hT
  · exact absurd hT (hk s a t e s' hms hkt)

/-- A value is read, and written elsewhere; the reading has checked what the last part relies on. -/
theorem Undone.checked [IsPreorder σ R] {γ : Type} {S : σ → Prop} {n : α → EStateM ε σ γ}
    {l : α → γ → EStateM ε σ β} (hread : Respects R m)
    (hcheck : ∀ s a s', m s = .ok a s' → S s') (hwrite : ∀ a, Avoids T (n a))
    (hkeep : ∀ a s c s', n a s = .ok c s' → S s → S s')
    (hlast : ∀ a c s e s', S s → l a c s = .error e s' → ¬T e) :
    Undone R T (m >>= fun a => n a >>= l a) := by
  intro s e s' hr hT
  have hs := hread.rel s
  rcases bind_eq_error.1 hr with hms | ⟨a, t, hms, hr⟩
  · rwa [hms] at hs
  · rcases bind_eq_error.1 hr with hnt | ⟨c, u, hnt, hlu⟩
    · exact absurd hT (hwrite a t e s' hnt)
    · exact absurd hT (hlast a c u e s' (hkeep a t c u hnt (hcheck s a t hms)) hlu)

end Undone

theorem Staged.undone {R : σ → σ → Prop} [IsPreorder σ R] {T : ε → Prop} {m : EStateM ε σ α}
    (h : Staged Keep Last Free m)
    (hkeep : ∀ {α : Type} {m : EStateM ε σ α}, Keep α m → Respects R m)
    (hlast : ∀ {α : Type} {m : EStateM ε σ α}, Last α m → Undone R T m)
    (hfree : ∀ {α : Type} {m : EStateM ε σ α}, Free α m → Avoids T m) : Undone R T m := by
  have hmade {α : Type} {m : EStateM ε σ α} (hm : Made Keep m) : Respects R m :=
    hm.respects hkeep
  induction h with
  | keep h => exact .of_respects (hmade h)
  | last h => exact hlast h
  | free h => exact .of_avoids (h.avoids hfree)
  | afterKeep hm _ ihk => exact .afterKeep (hmade hm) ihk
  | beforeFree _ hk ihm => exact ihm.before fun _ a t e s' _ => (hk a).avoids hfree t e s'

end Staged

end Fallible
