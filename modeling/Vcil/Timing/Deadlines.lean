import Mathlib.Algebra.GroupWithZero.Nat
import Vcil.Timing.Scoreboard

/-!
# By when the timing model is done

A scoreboard knows when everything under way is over.  A call moves the clock or that time by an
amount of its own; waiting moves the clock towards the time, which was paid when it was set.

* `Call.delay`, `Call.latency`: how far a call moves the clock and the time;
* `Sim.call_of_some`: a call that passes its assertions does what the scoreboard says;
* `Pipeline.Within s u e p`: the clock is between `s` and `u`, and everything is over at `e`;
* `Pipeline.Within.call`, `Pipeline.Within.run`: one call and any sequence of calls.
-/

namespace Vcil.Timing

/-! ### The calls on the scoreboard -/

/-- Every result is there and every unit is free at the time `e`. -/
structure Scoreboard.ReadyBy (e : ℤ) (b : Scoreboard) : Prop where
  ready : ∀ r, b.ready r ≤ e
  mult : b.multFree ≤ e
  div : b.divFree ≤ e

namespace Call

/-- How far the call moves the clock beyond what is under way. -/
def delay : Call → ℕ
  | .advance n => n.toNat
  | .doLoad .. => 1
  | _ => 0

/-- How far the call moves the time at which everything is over. -/
def latency : Call → ℕ
  | .advance n => n.toNat
  | .doMult .. => 18
  | .doDiv .. => 34
  | .doCsr _ => 5
  | .doLoad range _ l => (l + 1 + if range.size < 4 then 1 else 0).toNat
  | _ => 0

theorem Legal.delay_le_latency {c : Call} (hc : c.Legal) : c.delay ≤ c.latency := by
  cases c with
  | doLoad range rd l =>
    have hl : 1 ≤ l := hc.1
    show 1 ≤ (l + 1 + if range.size < 4 then 1 else 0).toNat
    split_ifs <;> omega
  | advance n => exact le_refl n.toNat
  | _ => exact Nat.zero_le _

end Call

section

variable {b : Scoreboard} {e e' : ℤ} {c : Call}

theorem Scoreboard.ReadyBy.mono (h : b.ReadyBy e) (he : e ≤ e') : b.ReadyBy e' :=
  ⟨fun r => (h.ready r).trans he, h.mult.trans he, h.div.trans he⟩

theorem Scoreboard.ReadyBy.later (h : b.ReadyBy e) (n : ℕ) : b.ReadyBy (e + n) :=
  h.mono (by omega)

/-- The clock has no part in it. -/
theorem Scoreboard.ReadyBy.wait (h : b.ReadyBy e) (t : ℤ) :
    ({ b with now := t } : Scoreboard).ReadyBy e := ⟨h.ready, h.mult, h.div⟩

theorem Scoreboard.ReadyBy.setReady (h : b.ReadyBy e) (rd : ℕ) {l : ℤ} (hl : b.now + l ≤ e) :
    (b.setReady rd l).ReadyBy e := by
  refine ⟨fun r => ?_, h.mult, h.div⟩
  show Function.update b.ready rd (b.now + l) r ≤ e
  by_cases hr : r = rd
  · subst hr
    rwa [Function.update_self]
  · rw [Function.update_of_ne hr]
    exact h.ready r

theorem Scoreboard.now_le_call (hc : c.Legal) : b.now ≤ (b.call c).now := by
  cases c with
  | advance n =>
    have hn : 0 < n := hc
    show b.now ≤ b.now + n
    omega
  | accessRegister r => exact le_max_left _ _
  | doMult rd x y => exact le_max_left _ _
  | doDiv rd x y => exact le_max_left _ _
  | doCsr rd => exact le_refl _
  | reserveStore range n => exact le_refl _
  | doLoad range rd l =>
    rw [Scoreboard.call]
    by_cases hover : b.Hazard range
    · rw [if_pos hover]
      show b.now ≤ b.now + 1
      omega
    · rw [if_neg hover]
      exact le_refl _

theorem Scoreboard.call_now_le (hnow : b.now ≤ e) (h : b.ReadyBy e) :
    (b.call c).now ≤ e + c.delay := by
  have hwait {t : ℤ} (ht : t ≤ e) : max b.now t ≤ e + (0 : ℕ) :=
    (max_le hnow ht).trans (by omega)
  cases c with
  | advance n =>
    have hle := Int.self_le_toNat n
    show b.now + n ≤ e + n.toNat
    omega
  | accessRegister r => exact hwait (h.ready r)
  | doMult rd x y => exact hwait h.mult
  | doDiv rd x y => exact hwait h.div
  | doCsr rd => exact hnow.trans (show e ≤ e + (0 : ℕ) by omega)
  | reserveStore range n => exact hnow.trans (show e ≤ e + (0 : ℕ) by omega)
  | doLoad range rd l =>
    rw [Scoreboard.call]
    by_cases hover : b.Hazard range
    · rw [if_pos hover]
      show b.now + 1 ≤ e + 1
      omega
    · rw [if_neg hover]
      show b.now ≤ e + 1
      omega

theorem Scoreboard.ReadyBy.call (h : b.ReadyBy e) (hnow : b.now ≤ e) :
    (b.call c).ReadyBy (e + c.latency) := by
  cases c with
  | advance n => exact (h.wait _).later _
  | accessRegister r => exact (h.wait _).later _
  | doMult rd x y =>
    have hwait : max b.now b.multFree ≤ e := max_le hnow h.mult
    have hset := ((h.wait (max b.now b.multFree)).later 18).setReady rd
      (Int.add_le_add_right hwait 18)
    exact ⟨hset.ready, show max b.now b.multFree + 17 ≤ e + 18 by omega, hset.div⟩
  | doDiv rd x y =>
    have hwait : max b.now b.divFree ≤ e := max_le hnow h.div
    have hset := ((h.wait (max b.now b.divFree)).later 34).setReady rd
      (Int.add_le_add_right hwait 34)
    exact ⟨hset.ready, hset.mult, show max b.now b.divFree + 33 ≤ e + 34 by omega⟩
  | doCsr rd => exact (h.later 5).setReady rd (Int.add_le_add_right hnow 5)
  | reserveStore range n =>
    have hlater := h.later 0
    exact ⟨hlater.ready, hlater.mult, hlater.div⟩
  | doLoad range rd l =>
    obtain ⟨extra, hextra, hpos⟩ : ∃ x : ℤ, (if range.size < 4 then 1 else 0) = x ∧ 0 ≤ x :=
      ⟨_, rfl, by split_ifs <;> omega⟩
    have hle := Int.self_le_toNat (l + 1 + extra)
    simp only [Scoreboard.call, Call.latency, hextra]
    by_cases hover : b.Hazard range
    · rw [if_pos hover]
      refine ((h.wait (b.now + 1)).later _).setReady rd ?_
      show b.now + 1 + (l + extra) ≤ e + ((l + 1 + extra).toNat : ℤ)
      omega
    · rw [if_neg hover]
      exact (h.later _).setReady rd (by omega)

end

/-! ### The calls that pass their assertions -/

section

variable {p p' : Pipeline} {b : Scoreboard}

/-- A latency that is added is positive, and its register was ready. -/
theorem Sim.addResultLatency_of_some (h : Sim p b) {rd : ℕ} {l : ℤ}
    (hp : p.addResultLatency rd l = some p') : Sim p' (b.setReady rd l) := by
  simp only [Pipeline.addResultLatency, Option.bind_eq_bind, Option.bind_eq_some_iff,
    Option.guard_eq_some'] at hp
  obtain ⟨_, hfind, _, hl, -⟩ := id hp
  have hready : b.ready rd ≤ b.now := by
    rw [h.find_eq] at hfind
    simpa using hfind
  obtain ⟨p'', hp'', hsim⟩ := h.addResultLatency hready hl
  have heq : p'' = p' := by
    simp only [Pipeline.addResultLatency, Option.bind_eq_bind, Option.bind_eq_some_iff,
      Option.guard_eq_some'] at hp''
    obtain ⟨_, -, _, -, hp''⟩ := hp''
    obtain ⟨_, -, _, -, hp⟩ := hp
    exact Option.some.inj (hp''.symm.trans hp)
  rwa [← heq]

theorem Sim.call_of_some (h : Sim p b) {c : Call} (hc : c.Legal) (hp : p.call c = some p') :
    Sim p' (b.call c) := by
  cases c with
  | advance n =>
    obtain ⟨_, hq, hsim⟩ := h.advance hc
    exact Option.some.inj (hq.symm.trans hp) ▸ hsim
  | accessRegister r =>
    obtain ⟨_, hq, hsim⟩ := h.accessRegister r
    exact Option.some.inj (hq.symm.trans hp) ▸ hsim
  | doMult rd x y =>
    obtain ⟨p₁, hp₁, hsim⟩ := h.reserveMult (show (0 : ℤ) < 17 by omega)
    have hadd : p₁.addResultLatency rd 18 = some p' := by
      simpa [Pipeline.call, Pipeline.doMult, Pipeline.getMultResultLatency, hp₁] using hp
    exact hsim.addResultLatency_of_some hadd
  | doDiv rd x y =>
    obtain ⟨p₁, hp₁, hsim⟩ := h.reserveDiv (show (0 : ℤ) < 33 by omega)
    have hadd : p₁.addResultLatency rd 34 = some p' := by
      simpa [Pipeline.call, Pipeline.doDiv, Pipeline.getDivResultLatency, hp₁] using hp
    exact hsim.addResultLatency_of_some hadd
  | doCsr rd => exact h.addResultLatency_of_some hp
  | reserveStore range n =>
    cases hp
    exact h.reserveStore range hc
  | doLoad range rd l =>
    rw [Scoreboard.call]
    by_cases hover : b.Hazard range
    · have hhas : p.hasStoreReservation range = true := by
        rw [h.hasStoreReservation, decide_eq_true hover]
      obtain ⟨p₁, hp₁, hsim⟩ := h.advance (show (0 : ℤ) < 1 by omega)
      have hextra : 0 < l + if range.size < 4 then 1 else 0 := by
        have := hc.1
        split_ifs <;> omega
      rw [if_pos hover]
      refine hsim.addResultLatency_of_some ?_
      rw [← int_of_le hextra hc.2]
      simpa [Pipeline.call, Pipeline.doLoad, hhas, Pipeline.stall, hp₁] using hp
    · have hhas : p.hasStoreReservation range = false := by
        rw [h.hasStoreReservation, decide_eq_false hover]
      rw [if_neg hover]
      refine h.addResultLatency_of_some ?_
      simpa [Pipeline.call, Pipeline.doLoad, hhas] using hp

end

/-! ### Runs of calls -/

/-- The clock is between `s` and `u`, and everything is over at the time `e`. -/
def Pipeline.Within (s u e : ℤ) (p : Pipeline) : Prop :=
  ∃ b, Sim p b ∧ s ≤ b.now ∧ b.now ≤ u ∧ b.ReadyBy e

/-- What is pending is over after `n` more cycles. -/
structure Pipeline.OverIn (n : ℤ) (p : Pipeline) : Prop where
  registers : ∀ e ∈ p.pendingRegisterLatencies, e.latency ≤ n
  mult : p.mult.acquired = true → p.mult.latency ≤ n
  div : p.div.acquired = true → p.div.latency ≤ n

namespace Pipeline.Within

variable {s u e u' e' : ℤ} {p p' : Pipeline} {c : Call}

theorem mono (h : p.Within s u e) (hu : u ≤ u') (he : e ≤ e') : p.Within s u' e' := by
  obtain ⟨b, hsim, hs, hnow, hready⟩ := h
  exact ⟨b, hsim, hs, hnow.trans hu, hready.mono he⟩

theorem call (h : p.Within s e e) (hc : c.Legal) (hp : p.call c = some p') :
    p'.Within s (e + c.delay) (e + c.latency) := by
  obtain ⟨b, hsim, hs, hnow, hready⟩ := h
  refine ⟨b.call c, hsim.call_of_some hc hp, hs.trans (Scoreboard.now_le_call hc), ?_, ?_⟩
  · exact Scoreboard.call_now_le hnow hready
  · exact hready.call hnow

/-- The tick that the caller has made room for. -/
theorem advance (h : p.Within s (e - 1) e) (hp : p.advance 1 = some p') :
    p'.Within (s + 1) e e := by
  obtain ⟨b, hsim, hs, hnow, hready⟩ := h
  obtain ⟨q, hq, hsim'⟩ := hsim.advance (show (0 : ℤ) < 1 by omega)
  obtain rfl : q = p' := Option.some.inj (hq.symm.trans hp)
  exact ⟨_, hsim', show s + 1 ≤ b.now + 1 by omega, show b.now + 1 ≤ e by omega,
    hready.ready, hready.mult, hready.div⟩

theorem run {calls : List Call} (h : p.Within s e e) (hlegal : ∀ c ∈ calls, c.Legal)
    (hp : p.run calls = some p') :
    p'.Within s (e + (calls.map Call.latency).sum) (e + (calls.map Call.latency).sum) := by
  induction calls generalizing p e with
  | nil =>
    cases hp
    simpa using h
  | cons c calls ih =>
    rw [Pipeline.run, List.foldlM_cons] at hp
    obtain ⟨p₁, hp₁, hrest⟩ := Option.bind_eq_some_iff.1 hp
    have hc := hlegal c List.mem_cons_self
    have hdelay := hc.delay_le_latency
    have hcall : p₁.Within s (e + c.latency) (e + c.latency) :=
      (h.call hc hp₁).mono (by omega) (le_refl _)
    have hrun := ih hcall (fun d hd => hlegal d (List.mem_cons_of_mem c hd)) hrest
    rw [List.map_cons, List.sum_cons, Int.natCast_add, ← Int.add_assoc]
    exact hrun

end Pipeline.Within

/-- What is over on the scoreboard is over in the pipeline. -/
theorem Sim.overIn {p : Pipeline} {b : Scoreboard} (h : Sim p b) {e n : ℤ} (hready : b.ReadyBy e)
    (hn : e ≤ b.now + n) : p.OverIn n := by
  refine ⟨fun l hl => ?_, fun hacq => ?_, fun hacq => ?_⟩
  · have hleft := ((h.registers.mem l.key l.latency).1 hl).2
    have hover := hready.ready l.key
    omega
  · have hleft := h.mult.latency hacq
    have hover := hready.mult
    omega
  · have hleft := h.div.latency hacq
    have hover := hready.div
    omega

theorem Pipeline.within_empty (cycles : BitVec 64) :
    (Pipeline.empty cycles).Within cycles.toInt cycles.toInt cycles.toInt :=
  ⟨_, sim_start cycles, le_refl _, le_refl _, fun _ => le_refl _, le_refl _, le_refl _⟩

end Vcil.Timing
