import Mathlib.Data.List.Induction
import Mathlib.Data.Nat.Init

/-!
# Clocked machines

A synchronous circuit is a function `step` from a register state and the sampled inputs to the
next register state; `run` feeds it a finite input sequence, oldest first.

* `run_induction` is the invariant rule;
* `observe` attaches an observer to a machine: it sees every state and input but is not seen by
  the machine (`run_observe_fst`);
* `trace` is the run over an infinite input sequence, and `history` lists the first values of a
  signal;
* `emits` collects what a machine shows after each input, and `hold` is the waveform that keeps
  each level for a number of clocks.
-/

namespace Clocked

variable {σ ι τ β : Type*}

/-- The state after the inputs `is`, oldest first. -/
def run (step : σ → ι → σ) (s : σ) (is : List ι) : σ := is.foldl step s

section Run

variable (step : σ → ι → σ) (s : σ)

@[simp] theorem run_nil : run step s [] = s := rfl

@[simp] theorem run_cons (i : ι) (is : List ι) :
    run step s (i :: is) = run step (step s i) is := rfl

theorem run_append (is js : List ι) : run step s (is ++ js) = run step (run step s is) js :=
  List.foldl_append

theorem run_concat (is : List ι) (i : ι) :
    run step s (is ++ [i]) = step (run step s is) i := by
  simp [run_append]

end Run

/-- What holds initially and is kept by every step holds after every run. -/
theorem run_induction {step : σ → ι → σ} {P : σ → Prop} {s : σ} (h0 : P s)
    (hstep : ∀ s i, P s → P (step s i)) (is : List ι) : P (run step s is) := by
  induction is generalizing s with
  | nil => exact h0
  | cons i is ih => exact ih (hstep s i h0)

/-! ### Infinite inputs -/

/-- The state after the first `n` inputs. -/
def trace (step : σ → ι → σ) (s : σ) (is : ℕ → ι) : ℕ → σ
  | 0 => s
  | n + 1 => step (trace step s is n) (is n)

/-- The first `n` values of a signal. -/
def history (f : ℕ → β) (n : ℕ) : List β := (List.range n).map f

theorem history_succ (f : ℕ → β) (n : ℕ) : history f (n + 1) = history f n ++ [f n] := by
  simp [history, List.range_succ]

theorem history_add (f : ℕ → β) (n m : ℕ) :
    history f (n + m) = history f n ++ history (fun i => f (n + i)) m := by
  simp [history, List.range_add]

theorem prefix_history {f : ℕ → β} {n : ℕ} {l : List β} (h : history f n <+: l) {k : ℕ}
    (hk : k < n) : l[k]? = some (f k) := by
  have hlen : k < (history f n).length := by simpa [history] using hk
  rw [List.prefix_iff_getElem?.1 h k hlen]
  simp [history]

theorem trace_eq_run (step : σ → ι → σ) (s : σ) (is : ℕ → ι) (n : ℕ) :
    trace step s is n = run step s (history is n) := by
  induction n with
  | zero => rfl
  | succ n ih => rw [history_succ, run_concat, ← ih]; rfl

theorem trace_add (step : σ → ι → σ) (s : σ) (is : ℕ → ι) (n m : ℕ) :
    trace step s is (n + m) = trace step (trace step s is n) (fun k => is (n + k)) m := by
  induction m with
  | zero => rfl
  | succ m ih => rw [Nat.add_succ, trace, ih]; rfl

theorem trace_congr {step : σ → ι → σ} {s : σ} {is is' : ℕ → ι} {n : ℕ}
    (h : ∀ k < n, is k = is' k) : trace step s is n = trace step s is' n := by
  induction n with
  | zero => rfl
  | succ n ih => rw [trace, trace, ih fun k hk => h k (by omega), h n (Nat.lt_succ_self n)]

/-- A state that an input leaves as it is stays when only this input follows. -/
theorem trace_of_fixed {step : σ → ι → σ} {s : σ} {is : ℕ → ι} {n : ℕ} {d : ι}
    (hfixed : step (trace step s is n) d = trace step s is n) (hrest : ∀ k, n ≤ k → is k = d) {k : ℕ}
    (hk : n ≤ k) : trace step s is k = trace step s is n := by
  induction k, hk using Nat.le_induction with
  | base => rfl
  | succ k hk ih =>
    show step (trace step s is k) (is k) = _
    rw [ih, hrest k hk, hfixed]

/-- The signal that a list shows, with the level `d` from its end on. -/
def extend (d : β) (l : List β) (n : ℕ) : β := l.getD n d

theorem extend_append_left (d : β) {l l' : List β} {k : ℕ} (hk : k < l.length) :
    extend d (l ++ l') k = extend d l k := by
  simp only [extend, List.getD_eq_getElem?_getD, List.getElem?_append_left hk]

theorem extend_append_right (d : β) (l l' : List β) (k : ℕ) :
    extend d (l ++ l') (l.length + k) = extend d l' k := by
  simp only [extend, List.getD_eq_getElem?_getD,
    List.getElem?_append_right (Nat.le_add_right l.length k), Nat.add_sub_cancel_left]

theorem extend_replicate (d : β) (n k : ℕ) : extend d (List.replicate n d) k = d := by
  rw [extend, List.getD_eq_getElem?_getD, List.getElem?_replicate]
  by_cases hk : k < n
  · rw [if_pos hk]
    rfl
  · rw [if_neg hk]
    rfl

theorem extend_end (d : β) {l : List β} {k : ℕ} (hk : l.length ≤ k) : extend d l k = d := by
  rw [extend, List.getD_eq_getElem?_getD, List.getElem?_eq_none hk]
  rfl

/-- Filling the signal up with its last level changes nothing. -/
theorem extend_append_replicate (d : β) (l : List β) (n : ℕ) :
    extend d (l ++ List.replicate n d) = extend d l := by
  funext k
  rcases Nat.lt_or_ge k l.length with hlt | hge
  · exact extend_append_left d hlt
  · obtain ⟨m, rfl⟩ := Nat.exists_eq_add_of_le hge
    rw [extend_append_right, extend_replicate, extend_end d hge]

theorem history_extend (d : β) (l : List β) : history (extend d l) l.length = l := by
  refine List.ext_getElem (by simp [history]) fun k hk hk' => ?_
  simp [history, extend, hk']

theorem history_extend_add (d : β) (l : List β) (k : ℕ) :
    history (extend d l) (l.length + k) = l ++ List.replicate k d := by
  rw [history_add, history_extend]
  refine congrArg (l ++ ·) (List.ext_getElem (by simp [history]) fun m hm hm' => ?_)
  simp [history, extend]

/-- A prefix of a finite signal is its beginning. -/
theorem history_extend_prefix (d : β) {l l' : List β} (h : l <+: l') :
    history (extend d l') l.length = l := by
  obtain ⟨l'', rfl⟩ := h
  conv_rhs => rw [← history_extend d l]
  exact List.map_congr_left fun k hk => extend_append_left d (List.mem_range.1 hk)

/-! ### Observers -/

/-- A machine with an observer, which records what it sees before each step. -/
def observe (step : σ → ι → σ) (obs : τ → σ → ι → τ) (p : σ × τ) (i : ι) : σ × τ :=
  (step p.1 i, obs p.2 p.1 i)

theorem run_observe_fst (step : σ → ι → σ) (obs : τ → σ → ι → τ) (p : σ × τ) (is : List ι) :
    (run (observe step obs) p is).1 = run step p.1 is := by
  induction is generalizing p with
  | nil => rfl
  | cons i is ih => exact ih _

/-! ### Outputs -/

/-- What `out` shows of the states after each input. -/
def emits (step : σ → ι → σ) (out : σ → Option β) (s : σ) : List ι → List β
  | [] => []
  | i :: is => (out (step s i)).toList ++ emits step out (step s i) is

section Emits

variable (step : σ → ι → σ) (out : σ → Option β) (s : σ)

@[simp] theorem emits_nil : emits step out s [] = [] := rfl

theorem emits_append (is js : List ι) :
    emits step out s (is ++ js) = emits step out s is ++ emits step out (run step s is) js := by
  induction is generalizing s with
  | nil => rfl
  | cons i is ih =>
    show _ ++ emits step out _ (is ++ js) = (_ ++ emits step out _ is) ++ _
    rw [ih, List.append_assoc, run_cons]

end Emits

/-! ### Waveforms -/

/-- Each level of `ls` for `n` clocks. -/
def hold (n : ℕ) (ls : List ι) : List ι := ls.flatMap (List.replicate n)

@[simp] theorem length_hold (n : ℕ) (ls : List ι) : (hold n ls).length = ls.length * n := by
  induction ls with
  | nil => simp [hold]
  | cons l ls ih =>
    have hcons : hold n (l :: ls) = List.replicate n l ++ hold n ls := List.flatMap_cons
    rw [hcons, List.length_append, List.length_replicate, ih, List.length_cons, Nat.succ_mul,
      Nat.add_comm]

/-- Between `j * n` and `(j + 1) * n` the waveform shows level `j`. -/
theorem getElem?_hold {n : ℕ} (ls : List ι) {j k : ℕ} (hlo : j * n ≤ k) (hhi : k < (j + 1) * n) :
    (hold n ls)[k]? = ls[j]? := by
  induction ls generalizing j k with
  | nil => simp [hold]
  | cons l ls ih =>
    have hcons : hold n (l :: ls) = List.replicate n l ++ hold n ls := List.flatMap_cons
    rw [hcons]
    cases j with
    | zero =>
      have hk : k < n := by simpa using hhi
      rw [List.getElem?_append_left (by simpa using hk)]
      simp [hk]
    | succ j =>
      have hn : n ≤ k := Nat.le_trans (Nat.le_mul_of_pos_left n (Nat.succ_pos j)) hlo
      rw [List.getElem?_append_right (by simpa using hn), List.length_replicate,
        List.getElem?_cons_succ]
      rw [Nat.succ_mul] at hlo hhi
      exact ih (by omega) (by omega)

/-! ### Bit cells -/

/-- What holds in the first clock of cell 0, is kept from clock to clock of a cell and carried into
the next cell holds in every clock of cells 0 to `n`. -/
theorem cell_induction {P : ℕ → ℕ → Prop} {n C : ℕ} (hC : 1 ≤ C) (h0 : P 0 1)
    (hclock : ∀ j ≤ n, ∀ r, 1 ≤ r → r < C → P j r → P j (r + 1))
    (hcell : ∀ j < n, P j C → P (j + 1) 1) {j : ℕ} (hj : j ≤ n) {r : ℕ} (hr : 1 ≤ r)
    (hrC : r ≤ C) : P j r := by
  have hin : ∀ j ≤ n, P j 1 → ∀ r, 1 ≤ r → r ≤ C → P j r := by
    intro j hj hfirst r hr
    induction r, hr using Nat.le_induction with
    | base => exact fun _ => hfirst
    | succ r hr ih => exact fun hrC => hclock j hj r hr hrC (ih (Nat.le_of_succ_le hrC))
  have hfirst : ∀ j ≤ n, P j 1 := by
    intro j hj
    induction j with
    | zero => exact h0
    | succ j ih =>
      have hj' : j ≤ n := Nat.le_of_succ_le hj
      exact hcell j hj (hin j hj' (ih hj') C hC (Nat.le_refl C))
  exact hin j hj (hfirst j hj) r hr hrC

end Clocked
