import Mathlib.Data.Nat.Notation
import Mathlib.Order.Basic
import Mathlib.Tactic.Set

/-!
# Progress of event-driven machines

A machine takes a step for every event of an infinite sequence.  Some kinds of event are promised
to keep coming (`Machine.Fair`); `Machine.LeadsTo R P Q` says that from `P` the machine then gets
to `Q`, and is in `R` until it does.

* `ensures`: a step that nothing else can undo before it happens;
* `trans`, `cases`, `descend`, `climb`: composition, case distinction, and counting down or up;
* `lift`: progress of a part of a machine is progress of the whole;
* `trap_unreachable`: a machine that always gets done never is in a trap.
-/

namespace Progress

variable {σ τ ε κ : Type*}

/-- A machine, and the kinds of event it relies on. -/
structure Machine (σ ε κ : Type*) where
  step : σ → ε → σ
  fires : κ → ε → Prop

namespace Machine

variable (M : Machine σ ε κ)

/-- The state after the first `n` events. -/
def trace (s : σ) (es : ℕ → ε) : ℕ → σ
  | 0 => s
  | n + 1 => M.step (trace s es n) (es n)

/-- Events of every kind keep coming. -/
def Fair (es : ℕ → ε) : Prop := ∀ k n, ∃ m, n ≤ m ∧ M.fires k (es m)

/-- From `P` the machine gets to `Q`, by way of `R`. -/
def LeadsTo (R P Q : σ → Prop) : Prop :=
  ∀ s es, M.Fair es → P s → ∃ n, Q (M.trace s es n) ∧ ∀ m < n, R (M.trace s es m)

variable {M}

theorem trace_add (s : σ) (es : ℕ → ε) (n m : ℕ) :
    M.trace s es (n + m) = M.trace (M.trace s es n) (fun i => es (n + i)) m := by
  induction m with
  | zero => rfl
  | succ m ih =>
    show M.step (M.trace s es (n + m)) (es (n + m)) = M.step _ (es (n + m))
    rw [ih]

theorem Fair.shift {es : ℕ → ε} (h : M.Fair es) (n : ℕ) : M.Fair fun i => es (n + i) := by
  intro k i
  obtain ⟨m, hm, hfires⟩ := h k (n + i)
  refine ⟨m - n, by omega, ?_⟩
  have hback : n + (m - n) = m := by omega
  show M.fires k (es (n + (m - n)))
  rwa [hback]

/-- What every step keeps holds at all times. -/
theorem trace_induction {P : σ → Prop} {s : σ} {es : ℕ → ε} (h0 : P s)
    (hstep : ∀ s e, P s → P (M.step s e)) (n : ℕ) : P (M.trace s es n) := by
  induction n with
  | zero => exact h0
  | succ n ih => exact hstep _ _ ih

theorem trace_congr {s : σ} {es es' : ℕ → ε} {n : ℕ} (h : ∀ i < n, es i = es' i) :
    M.trace s es n = M.trace s es' n := by
  induction n with
  | zero => rfl
  | succ n ih =>
    show M.step (M.trace s es n) (es n) = M.step (M.trace s es' n) (es' n)
    rw [ih fun i hi => h i (Nat.lt_succ_of_lt hi), h n (Nat.lt_succ_self n)]

/-- What every step keeps holds from then on. -/
theorem trace_stable {P : σ → Prop} {s : σ} {es : ℕ → ε} (hstep : ∀ s e, P s → P (M.step s e))
    {n m : ℕ} (hn : P (M.trace s es n)) (hnm : n ≤ m) : P (M.trace s es m) := by
  obtain ⟨d, rfl⟩ := Nat.exists_eq_add_of_le hnm
  rw [trace_add]
  exact trace_induction hn hstep d

/-- A machine that gets done whenever its events are fair is never in a state from which it
cannot, whatever the events so far. -/
theorem trap_unreachable {Done Trap : σ → Prop} {s : σ} {es₀ : ℕ → ε} (hfair : M.Fair es₀)
    (hdone : ∀ es, M.Fair es → ∃ n, Done (M.trace s es n))
    (hkeep : ∀ s e, Done s → Done (M.step s e)) (htrap : ∀ s e, Trap s → Trap (M.step s e))
    (hdisj : ∀ s, Done s → ¬Trap s) (es : ℕ → ε) (n : ℕ) : ¬Trap (M.trace s es n) := by
  intro hn
  -- the run goes on fairly from `n` on
  set es' : ℕ → ε := fun i => if i < n then es i else es₀ (i - n) with hes'
  have hsame : M.trace s es' n = M.trace s es n :=
    trace_congr fun i hi => if_pos hi
  have hfair' : M.Fair es' := by
    intro k i
    obtain ⟨m, hm, hk⟩ := hfair k i
    refine ⟨n + m, by omega, ?_⟩
    rw [hes']
    dsimp only
    rwa [if_neg (by omega), Nat.add_sub_cancel_left]
  obtain ⟨m, hm⟩ := hdone es' hfair'
  rcases Nat.le_total n m with hnm | hmn
  · exact hdisj _ hm (trace_stable htrap (hsame ▸ hn) hnm)
  · exact hdisj _ (trace_stable hkeep hm hmn) (hsame ▸ hn)

namespace LeadsTo

variable {R P P' Q Q' : σ → Prop}

theorem of_imp (h : ∀ s, P s → Q s) : M.LeadsTo R P Q := fun s _ _ hP =>
  ⟨0, h s hP, fun _ hm => absurd hm (Nat.not_lt_zero _)⟩

theorem mono (h : M.LeadsTo R P Q) (hP : ∀ s, P' s → P s) (hQ : ∀ s, Q s → Q' s) :
    M.LeadsTo R P' Q' := by
  intro s es hfair hs
  obtain ⟨n, hn, hR⟩ := h s es hfair (hP s hs)
  exact ⟨n, hQ _ hn, hR⟩

theorem trans (h : M.LeadsTo R P Q) (h' : M.LeadsTo R Q Q') : M.LeadsTo R P Q' := by
  intro s es hfair hs
  obtain ⟨n, hn, hR⟩ := h s es hfair hs
  obtain ⟨n', hn', hR'⟩ := h' _ _ (hfair.shift n) hn
  refine ⟨n + n', by rwa [trace_add], fun m hm => ?_⟩
  rcases Nat.lt_or_ge m n with hlt | hge
  · exact hR m hlt
  · have := hR' (m - n) (by omega)
    rwa [← trace_add, Nat.add_sub_cancel' hge] at this

theorem cases (h : M.LeadsTo R P Q) (h' : M.LeadsTo R P' Q) :
    M.LeadsTo R (fun s => P s ∨ P' s) Q := by
  rintro s es hfair (hs | hs)
  · exact h s es hfair hs
  · exact h' s es hfair hs

theorem exists_elim {ι : Sort*} {P : ι → σ → Prop} (h : ∀ i, M.LeadsTo R (P i) Q) :
    M.LeadsTo R (fun s => ∃ i, P i s) Q := by
  rintro s es hfair ⟨i, hs⟩
  exact h i s es hfair hs

/-- If every event keeps `P` or brings about `Q`, and events of one kind always bring about `Q`,
then `Q` comes. -/
theorem ensures (k : κ) (hR : ∀ s, P s → R s) (hstep : ∀ s e, P s → P (M.step s e) ∨ Q (M.step s e))
    (hk : ∀ s e, P s → M.fires k e → Q (M.step s e)) : M.LeadsTo R P Q := by
  intro s es hfair hs
  obtain ⟨N, -, hN⟩ := hfair k 0
  -- induction on the time until the next event of the kind
  induction N generalizing s es with
  | zero =>
    refine ⟨1, hk s _ hs hN, fun m hm => ?_⟩
    rw [Nat.lt_one_iff.1 hm]
    exact hR s hs
  | succ N ih =>
    rcases hstep s (es 0) hs with hP | hQ
    · obtain ⟨n, hn, hR'⟩ := ih (M.step s (es 0)) (fun i => es (1 + i)) (hfair.shift 1) hP
        (by rwa [Nat.add_comm])
      refine ⟨1 + n, by rwa [trace_add], fun m hm => ?_⟩
      rcases Nat.eq_zero_or_pos m with rfl | hpos
      · exact hR s hs
      · have := hR' (m - 1) (by omega)
        rwa [show M.step s (es 0) = M.trace s es 1 from rfl, ← trace_add,
          Nat.add_sub_cancel' hpos] at this
    · refine ⟨1, hQ, fun m hm => ?_⟩
      rw [Nat.lt_one_iff.1 hm]
      exact hR s hs

/-- Counting down. -/
theorem descend {P : ℕ → σ → Prop}
    (h : ∀ j, M.LeadsTo R (P j) fun s => (∃ i < j, P i s) ∨ Q s) (j : ℕ) :
    M.LeadsTo R (P j) Q := by
  induction j using Nat.strongRecOn with
  | ind j ih =>
    refine (h j).trans (cases ?_ (of_imp fun _ hs => hs))
    rintro s es hfair ⟨i, hi, hs⟩
    exact ih i hi s es hfair hs

/-- Counting up. -/
theorem climb {P : ℕ → σ → Prop} (h : ∀ j, M.LeadsTo R (P j) fun s => P (j + 1) s ∨ Q s) (j : ℕ) :
    M.LeadsTo R (P 0) fun s => P j s ∨ Q s := by
  induction j with
  | zero => exact of_imp fun s hs => Or.inl hs
  | succ j ih => exact ih.trans (cases (h j) (of_imp fun s hs => Or.inr hs))

/-- A part `t` of a state `s` takes its own steps for the same events as long as it is in `R`. -/
theorem lift {M : Machine σ ε κ} {N : Machine τ ε κ} {R P Q : τ → Prop} {R' : σ → Prop}
    {part : σ → τ → Prop} (h : N.LeadsTo R P Q) (hfires : ∀ k e, M.fires k e → N.fires k e)
    (hR : ∀ s t, part s t → R t → R' s)
    (hstep : ∀ s t e, part s t → R t → part (M.step s e) (N.step t e)) :
    M.LeadsTo R' (fun s => ∃ t, part s t ∧ P t) fun s => ∃ t, part s t ∧ Q t := by
  rintro s es hfair ⟨t, hpart, ht⟩
  have hfairN : N.Fair es := fun k n => by
    obtain ⟨m, hm, hk⟩ := hfair k n
    exact ⟨m, hm, hfires k _ hk⟩
  obtain ⟨n, hn, hall⟩ := h t es hfairN ht
  have hparts : ∀ m ≤ n, part (M.trace s es m) (N.trace t es m) := by
    intro m hm
    induction m with
    | zero => exact hpart
    | succ m ih => exact hstep _ _ _ (ih (by omega)) (hall m hm)
  exact ⟨n, ⟨_, hparts n (Nat.le_refl n), hn⟩, fun m hm =>
    hR _ _ (hparts m (Nat.le_of_lt hm)) (hall m hm)⟩

end LeadsTo

end Machine

end Progress
