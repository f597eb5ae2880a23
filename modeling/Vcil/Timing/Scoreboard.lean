import Mathlib.Data.List.Induction
import Mathlib.Data.Option.Basic
import Vcil.Timing.Pipeline

/-!
# The scoreboard behind the pipeline timing model

What `HiFive1PipelineTiming` is for: a clock, and for each register and unit the absolute time at
which it is ready.

* `Scoreboard`, `Scoreboard.call`: the absolute-time model, with no pending lists and no ageing;
* `Sim`: a pipeline and a scoreboard say the same at the scoreboard's time;
* one lemma for each call, from `Sim.advance`, the one for the passing of time;
* `Pipeline.Valid`, `Pipeline.ReadyAt`: what one call needs and leaves;
* `Call.Legal`: no latency overflows an `int`;
* `Pipeline.refines_scoreboard`: any sequence of such calls in the simulator's order fails no
  assertion and counts the scoreboard's cycles.
-/

namespace Vcil.Timing

/-- Absolute times: the clock, when each register and unit is ready, and until when each store is
pending. -/
structure Scoreboard where
  now : ℤ
  ready : ℕ → ℤ
  multFree : ℤ
  divFree : ℤ
  stores : List (Range × ℤ)

namespace Scoreboard

/-- Everything is ready; the clock shows `now`. -/
def start (now : ℤ) : Scoreboard := ⟨now, fun _ => now, now, now, []⟩

variable (b : Scoreboard)

def waitUntil (t : ℤ) : Scoreboard := { b with now := max b.now t }

def setReady (r : ℕ) (cycles : ℤ) : Scoreboard :=
  { b with ready := Function.update b.ready r (b.now + cycles) }

/-- A store to an overlapping range is still pending. -/
def Hazard (range : Range) : Prop := ∃ d ∈ b.stores, b.now < d.2 ∧ d.1.overlaps range = true

instance (range : Range) : Decidable (b.Hazard range) :=
  inferInstanceAs (Decidable (∃ d ∈ b.stores, _))

/-- The specification of each call. -/
def call : Call → Scoreboard
  | .advance n => { b with now := b.now + n }
  | .accessRegister r => b.waitUntil (b.ready r)
  | .doMult rd _ _ =>
      let b := b.waitUntil b.multFree
      { b.setReady rd 18 with multFree := b.now + 17 }
  | .doDiv rd _ _ =>
      let b := b.waitUntil b.divFree
      { b.setReady rd 34 with divFree := b.now + 33 }
  | .doCsr rd => b.setReady rd 5
  | .reserveStore range n => { b with stores := b.stores ++ [(range, b.now + n + 1)] }
  | .doLoad range rd l =>
      if b.Hazard range then
        let b := { b with now := b.now + 1 }
        b.setReady rd (l + if range.size < 4 then 1 else 0)
      else b.setReady rd l

def run (calls : List Call) : Scoreboard := calls.foldl call b

end Scoreboard

/-! ### Sequences of calls -/

/-- Cycle counts are positive `int`s. -/
def Call.Positive : Call → Prop
  | .advance n | .reserveStore _ n | .doLoad _ _ n => 1 ≤ n ∧ n ≤ intMax
  | _ => True

/-- … and so are the latencies that a call adds: a store is pending for one cycle more, and a load
of less than a word may be. -/
def Call.Legal : Call → Prop
  | .advance n => 0 < n
  | .reserveStore _ n => 1 ≤ n ∧ n < intMax
  | .doLoad range _ l => 1 ≤ l ∧ l + (if range.size < 4 then 1 else 0) ≤ intMax
  | _ => True

/-- The simulator's stores take one cycle. -/
theorem Call.legal_reserveStore (range : Range) : (Call.reserveStore range 1).Legal := by
  constructor <;> decide

/-- Its loads take two. -/
theorem Call.legal_doLoad (range : Range) (rd : ℕ) : (Call.doLoad range rd 2).Legal := by
  refine ⟨by decide, ?_⟩
  split_ifs <;> decide

/-- The register for which a call adds a latency. -/
def Call.result? : Call → Option ℕ
  | .doMult rd _ _ | .doDiv rd _ _ | .doCsr rd | .doLoad _ rd _ => some rd
  | _ => none

/-- Each call that adds a latency for a register directly follows an access of that register. -/
def Ordered (calls : List Call) : Prop :=
  ∀ pre c post, calls = pre ++ c :: post → ∀ rd, c.result? = some rd →
    pre.getLast? = some (.accessRegister rd)

/-! ### The simulation -/

/-- A unit is acquired until its absolute time, with the time left as its latency. -/
structure Busy (now free : ℤ) (u : OperationReservation) : Prop where
  acquired : u.acquired = decide (now < free)
  latency : u.acquired = true → u.latency = free - now

/-- The pipeline shows what the scoreboard says, in relative times. -/
structure Sim (p : Pipeline) (b : Scoreboard) : Prop where
  cycles : p.numTotalCycles = BitVec.ofInt 64 b.now
  registers : Countdown.Tracks b.now b.ready p.pendingRegisterLatencies
  mult : Busy b.now b.multFree p.mult
  div : Busy b.now b.divFree p.div
  stores : p.pendingStoreReservations = Countdown.remaining b.now b.stores

theorem advanceAll_eq {κ : Type} {n : ℤ} {es : List (Countdown κ)} (h : ∀ e ∈ es, 0 < e.latency) :
    advanceAll n es = some (Countdown.age n es) := by
  induction es with
  | nil => rfl
  | cons e es ih =>
    have he : 0 < e.latency := h e List.mem_cons_self
    have ih := ih fun e' he' => h e' (List.mem_cons_of_mem e he')
    rw [advanceAll, advanceLatency, ih, Countdown.age_cons]
    simp [he]

theorem Busy.advance {now free n : ℤ} {u : OperationReservation} (h : Busy now free u)
    (hn : 0 < n) : ∃ u' alive, u.advance n = some (u', alive) ∧ Busy (now + n) free u' := by
  obtain ⟨ha, hl⟩ := h
  cases hacq : u.acquired with
  | false =>
    have hfree : ¬now < free := by simpa [hacq] using ha.symm
    refine ⟨u, true, by simp [OperationReservation.advance, hacq], ?_, fun h => ?_⟩
    · rw [hacq, decide_eq_false (by omega)]
    · rw [hacq] at h
      cases h
  | true =>
    have hbusy : now < free := by simpa [hacq] using ha.symm
    have hleft := hl hacq
    by_cases hdue : u.latency - n ≤ 0
    · refine ⟨⟨false, u.latency - n⟩, false, ?_, ?_, fun h => by cases h⟩
      · have hpos : 0 < u.latency := by omega
        simp [OperationReservation.advance, OperationReservation.release, hacq, hpos, hdue]
      · rw [decide_eq_false (by omega)]
    · refine ⟨⟨true, u.latency - n⟩, true, ?_, ?_, fun _ => ?_⟩
      · have hpos : 0 < u.latency := by omega
        simp [OperationReservation.advance, hacq, hpos, hdue]
      · rw [decide_eq_true (by omega)]
      · simp only
        omega

section Calls

variable {p : Pipeline} {b : Scoreboard}

/-- Time passes on both sides alike. -/
theorem Sim.advance (h : Sim p b) {n : ℤ} (hn : 0 < n) :
    ∃ p', p.advance n = some p' ∧ Sim p' { b with now := b.now + n } := by
  obtain ⟨mult, _, hmult, hmult'⟩ := h.mult.advance hn
  obtain ⟨div, _, hdiv, hdiv'⟩ := h.div.advance hn
  have hregs := advanceAll_eq (n := n) h.registers.latency_pos
  have hstores : advanceAll n p.pendingStoreReservations =
      some (Countdown.remaining (b.now + n) b.stores) := by
    rw [← Countdown.age_remaining b.now (by omega), ← h.stores]
    refine advanceAll_eq fun e he => ?_
    rw [h.stores] at he
    obtain ⟨t, -, hlt, hl⟩ := Countdown.mem_remaining.1 he
    omega
  refine ⟨⟨Countdown.age n p.pendingRegisterLatencies, mult, div,
    Countdown.remaining (b.now + n) b.stores, p.numTotalCycles + BitVec.ofInt 64 n⟩, ?_, ?_⟩
  · simp [Pipeline.advance, hn, hregs, hmult, hdiv, hstores]
  constructor
  · show p.numTotalCycles + BitVec.ofInt 64 n = BitVec.ofInt 64 (b.now + n)
    rw [h.cycles, BitVec.ofInt_add]
  · exact h.registers.age (by omega)
  · exact hmult'
  · exact hdiv'
  · rfl

theorem waitUntil_of_le {t : ℤ} (h : t ≤ b.now) : b.waitUntil t = b := by
  rw [Scoreboard.waitUntil, max_eq_left h]

/-- A stall for the time left until `t`. -/
theorem Sim.stall (h : Sim p b) {t : ℤ} (ht : b.now < t) :
    ∃ p', p.stall (t - b.now) = some p' ∧ Sim p' (b.waitUntil t) := by
  obtain ⟨p', hp', hsim⟩ := h.advance (show 0 < t - b.now by omega)
  refine ⟨p', hp', ?_⟩
  rw [Scoreboard.waitUntil, max_eq_right ht.le]
  rwa [show b.now + (t - b.now) = t by omega] at hsim

theorem Sim.accessRegister (h : Sim p b) (r : ℕ) :
    ∃ p', p.accessRegister r = some p' ∧ Sim p' (b.waitUntil (b.ready r)) := by
  cases hfind : p.pendingRegisterLatencies.find? (fun e => e.key = r) with
  | some e =>
    have hkey : e.key = r := by simpa using List.find?_some hfind
    obtain ⟨hpos, hl⟩ := (h.registers.mem e.key e.latency).1 (List.mem_of_find?_eq_some hfind)
    rw [hkey] at hl
    obtain ⟨p', hp', hsim⟩ := h.stall (show b.now < b.ready r by omega)
    refine ⟨p', ?_, hsim⟩
    rw [Pipeline.accessRegister, hfind, ← hp', ← hl]
  | none =>
    have hready : b.ready r ≤ b.now := by
      by_contra hlt
      have hmem := (h.registers.mem r (b.ready r - b.now)).2 ⟨by omega, rfl⟩
      have := List.find?_eq_none.1 hfind _ hmem
      simp at this
    refine ⟨p, by rw [Pipeline.accessRegister, hfind], ?_⟩
    rwa [waitUntil_of_le hready]

/-- A register has an entry until it is ready. -/
theorem Sim.find_eq (h : Sim p b) (r : ℕ) : p.find r = decide (b.now < b.ready r) := by
  rw [Pipeline.find]
  by_cases hlt : b.now < b.ready r
  · rw [decide_eq_true hlt, List.any_eq_true]
    exact ⟨_, (h.registers.mem r (b.ready r - b.now)).2 ⟨by omega, rfl⟩, decide_eq_true rfl⟩
  · rw [decide_eq_false hlt, List.any_eq_false]
    intro e he
    simpa using h.registers.not_mem (not_lt.1 hlt) e he

theorem Sim.addResultLatency (h : Sim p b) {rd : ℕ} (hready : b.ready rd ≤ b.now) {l : ℤ}
    (hl : 0 < l) : ∃ p', p.addResultLatency rd l = some p' ∧ Sim p' (b.setReady rd l) := by
  have hnew : p.find rd = false := by
    rw [h.find_eq, decide_eq_false (not_lt.2 hready)]
  refine ⟨{ p with pendingRegisterLatencies := p.pendingRegisterLatencies ++ [⟨rd, l⟩] }, ?_,
    h.cycles, h.registers.insert hready hl, h.mult, h.div, h.stores⟩
  simp [Pipeline.addResultLatency, hnew, hl]

theorem Busy.acquire {now free n : ℤ} {u : OperationReservation} (h : Busy now free u)
    (hfree : free ≤ now) (hn : 0 < n) :
    ∃ u', u.acquire n = some u' ∧ Busy now (now + n) u' := by
  have hacq : u.acquired = false := by
    rw [h.acquired, decide_eq_false (by omega)]
  refine ⟨⟨true, n⟩, by simp [OperationReservation.acquire, hacq, hn], ?_, fun _ => ?_⟩
  · rw [decide_eq_true (by omega)]
  · simp only
    omega

theorem Sim.waitFor (h : Sim p b) {free : ℤ} {u : OperationReservation} (hu : Busy b.now free u) :
    ∃ p', p.waitFor u = some p' ∧ Sim p' (b.waitUntil free) := by
  cases hacq : u.acquired with
  | true =>
    have hlt : b.now < free := by simpa [hacq] using hu.acquired.symm
    rw [Pipeline.waitFor, if_pos hacq, hu.latency hacq]
    exact h.stall hlt
  | false =>
    have hle : ¬b.now < free := by simpa [hacq] using hu.acquired.symm
    refine ⟨p, by rw [Pipeline.waitFor, hacq, if_neg Bool.false_ne_true], ?_⟩
    rwa [waitUntil_of_le (by omega)]

theorem Sim.reserveMult (h : Sim p b) {n : ℤ} (hn : 0 < n) : ∃ p', p.reserveMult n = some p' ∧
    Sim p' { b.waitUntil b.multFree with multFree := (b.waitUntil b.multFree).now + n } := by
  obtain ⟨p', hp', hsim⟩ := h.waitFor h.mult
  obtain ⟨u, hu, hbusy⟩ := hsim.mult.acquire (le_max_right _ _) hn
  refine ⟨{ p' with mult := u }, ?_, hsim.cycles, hsim.registers, hbusy, hsim.div, hsim.stores⟩
  simp [Pipeline.reserveMult, hp', hu]

theorem Sim.reserveDiv (h : Sim p b) {n : ℤ} (hn : 0 < n) : ∃ p', p.reserveDiv n = some p' ∧
    Sim p' { b.waitUntil b.divFree with divFree := (b.waitUntil b.divFree).now + n } := by
  obtain ⟨p', hp', hsim⟩ := h.waitFor h.div
  obtain ⟨u, hu, hbusy⟩ := hsim.div.acquire (le_max_right _ _) hn
  refine ⟨{ p' with div := u }, ?_, hsim.cycles, hsim.registers, hsim.mult, hbusy, hsim.stores⟩
  simp [Pipeline.reserveDiv, hp', hu]

theorem Sim.hasStoreReservation (h : Sim p b) (range : Range) :
    p.hasStoreReservation range = decide (b.Hazard range) := by
  rw [Pipeline.hasStoreReservation, h.stores, Bool.eq_iff_iff, List.any_eq_true, decide_eq_true_iff]
  constructor
  · rintro ⟨e, he, hover⟩
    obtain ⟨t, hmem, hlt, -⟩ := Countdown.mem_remaining.1 he
    exact ⟨_, hmem, hlt, hover⟩
  · rintro ⟨⟨r, t⟩, hmem, hlt, hover⟩
    exact ⟨⟨r, t - b.now⟩, Countdown.mem_remaining.2 ⟨t, hmem, hlt, rfl⟩, hover⟩

theorem Sim.reserveStore (h : Sim p b) (range : Range) {n : ℤ} (hn : 1 ≤ n ∧ n < intMax) :
    Sim (p.reserveStore range n) { b with stores := b.stores ++ [(range, b.now + n + 1)] } := by
  obtain ⟨hpos, hlt⟩ := hn
  refine ⟨h.cycles, h.registers, h.mult, h.div, ?_⟩
  show p.pendingStoreReservations ++ [⟨range, int (n + 1)⟩] = _
  rw [int_of_le (by omega) (by omega), h.stores, Countdown.remaining, Countdown.remaining,
    List.filterMap_append]
  have hlt : b.now < b.now + n + 1 := by omega
  have hleft : b.now + n + 1 - b.now = n + 1 := by omega
  simp [hlt, hleft]

theorem Sim.doLoad (h : Sim p b) (range : Range) {rd : ℕ} (hready : b.ready rd ≤ b.now) {l : ℤ}
    (hl : 1 ≤ l ∧ l + (if range.size < 4 then 1 else 0) ≤ intMax) :
    ∃ p', p.doLoad range rd l = some p' ∧ Sim p' (b.call (.doLoad range rd l)) := by
  obtain ⟨hpos, hmax⟩ := hl
  rw [Pipeline.doLoad, Scoreboard.call, h.hasStoreReservation]
  by_cases hover : b.Hazard range
  · obtain ⟨p₁, hp₁, hsim⟩ := h.advance (show (0 : ℤ) < 1 by omega)
    have hextra : 0 < l + if range.size < 4 then 1 else 0 := by split_ifs <;> omega
    have hlater : ({ b with now := b.now + 1 } : Scoreboard).ready rd ≤ b.now + 1 := by
      simp only
      omega
    obtain ⟨p₂, hp₂, hsim⟩ := hsim.addResultLatency hlater hextra
    rw [← int_of_le hextra hmax] at hp₂
    refine ⟨p₂, ?_, ?_⟩
    · simpa [hover, Pipeline.stall, hp₁] using hp₂
    · rwa [if_pos hover]
  · obtain ⟨p', hp', hsim⟩ := h.addResultLatency hready (show 0 < l by omega)
    refine ⟨p', ?_, ?_⟩
    · simpa [hover] using hp'
    · rwa [if_neg hover]

/-- Every legal call does what the scoreboard says, provided the register it adds a latency for is
ready. -/
theorem Sim.call (h : Sim p b) {c : Call} (hc : c.Legal)
    (hready : ∀ rd, c.result? = some rd → b.ready rd ≤ b.now) :
    ∃ p', p.call c = some p' ∧ Sim p' (b.call c) := by
  cases c with
  | advance n => exact h.advance hc
  | accessRegister r => exact h.accessRegister r
  | doMult rd x y =>
    have hrd := hready rd rfl
    obtain ⟨p₁, hp₁, hsim⟩ := h.reserveMult (show (0 : ℤ) < 17 by omega)
    obtain ⟨p₂, hp₂, hsim⟩ := hsim.addResultLatency (l := 18) (hrd.trans (le_max_left _ _)) (by omega)
    refine ⟨p₂, ?_, hsim⟩
    simpa [Pipeline.call, Pipeline.doMult, Pipeline.getMultResultLatency, hp₁] using hp₂
  | doDiv rd x y =>
    have hrd := hready rd rfl
    obtain ⟨p₁, hp₁, hsim⟩ := h.reserveDiv (show (0 : ℤ) < 33 by omega)
    obtain ⟨p₂, hp₂, hsim⟩ := hsim.addResultLatency (l := 34) (hrd.trans (le_max_left _ _)) (by omega)
    refine ⟨p₂, ?_, hsim⟩
    simpa [Pipeline.call, Pipeline.doDiv, Pipeline.getDivResultLatency, hp₁] using hp₂
  | doCsr rd => exact h.addResultLatency (hready rd rfl) (by omega)
  | reserveStore range n => exact ⟨_, rfl, h.reserveStore range hc⟩
  | doLoad range rd l => exact h.doLoad range (hready rd rfl) hc

end Calls

/-! ### Runs -/

theorem sim_start (c : BitVec 64) : Sim (.empty c) (.start c.toInt) := by
  have hbusy : Busy c.toInt c.toInt .free :=
    ⟨(decide_eq_false (lt_irrefl _)).symm, fun h => by cases h⟩
  refine ⟨?_, .nil fun _ => le_refl _, hbusy, hbusy, rfl⟩
  show c = BitVec.ofInt 64 c.toInt
  rw [BitVec.ofInt_toInt]

/-- An access leaves its register ready. -/
theorem ready_of_access (b : Scoreboard) (r : ℕ) :
    (b.call (.accessRegister r)).ready r ≤ (b.call (.accessRegister r)).now :=
  le_max_right _ _

theorem Ordered.prefix {pre post : List Call} (h : Ordered (pre ++ post)) : Ordered pre := by
  intro pre' c post' heq rd hrd
  exact h pre' c (post' ++ post) (by simp [heq]) rd hrd

/-- The simulation along a run; after an access its register is ready. -/
theorem run_sim (c : BitVec 64) {calls : List Call} (hlegal : ∀ c ∈ calls, c.Legal)
    (hordered : Ordered calls) :
    ∃ p, (Pipeline.empty c).run calls = some p ∧ Sim p ((Scoreboard.start c.toInt).run calls) ∧
      ∀ r, calls.getLast? = some (.accessRegister r) →
        ((Scoreboard.start c.toInt).run calls).ready r ≤
          ((Scoreboard.start c.toInt).run calls).now := by
  induction calls using List.reverseRecOn with
  | nil => exact ⟨_, rfl, sim_start c, fun r hr => by simp at hr⟩
  | append_singleton pre d ih =>
    obtain ⟨p, hp, hsim, hlast⟩ := ih (fun e he => hlegal e (List.mem_append_left _ he))
      hordered.prefix
    obtain ⟨p', hp', hsim'⟩ := hsim.call (hlegal d (by simp)) fun rd hrd =>
      hlast rd (hordered pre d [] rfl rd hrd)
    refine ⟨p', ?_, ?_, ?_⟩
    · rw [Pipeline.run, List.foldlM_append]
      rw [Pipeline.run] at hp
      simp [hp, hp']
    · rwa [Scoreboard.run, List.foldl_append]
    · intro r hr
      obtain rfl : d = .accessRegister r := by simpa using hr
      rw [Scoreboard.run, List.foldl_append]
      exact ready_of_access _ r

/-! ### Valid pipelines

What the caller of the timing model can rely on without looking at the scoreboard. -/

/-- The pipeline shows some scoreboard. -/
def Pipeline.Valid (p : Pipeline) : Prop := ∃ b, Sim p b

/-- … on which the register is ready. -/
def Pipeline.ReadyAt (r : ℕ) (p : Pipeline) : Prop := ∃ b, Sim p b ∧ b.ready r ≤ b.now

section Valid

variable {p : Pipeline} {r : ℕ}

theorem Pipeline.valid_empty (cycles : BitVec 64) : (Pipeline.empty cycles).Valid :=
  ⟨_, sim_start cycles⟩

theorem Pipeline.ReadyAt.valid (h : p.ReadyAt r) : p.Valid := by
  obtain ⟨b, hsim, -⟩ := h
  exact ⟨b, hsim⟩

theorem Pipeline.ReadyAt.find (h : p.ReadyAt r) : p.find r = false := by
  obtain ⟨b, hsim, hready⟩ := h
  rw [hsim.find_eq, decide_eq_false (not_lt.2 hready)]

theorem Pipeline.Valid.accessRegister (h : p.Valid) (r : ℕ) :
    ∃ p', p.accessRegister r = some p' ∧ p'.ReadyAt r := by
  obtain ⟨b, hsim⟩ := h
  obtain ⟨p', hp', hsim'⟩ := hsim.accessRegister r
  exact ⟨p', hp', _, hsim', ready_of_access b r⟩

/-- A register that is ready stays so while another is waited for. -/
theorem Pipeline.ReadyAt.accessRegister (h : p.ReadyAt r) (r' : ℕ) :
    ∃ p', p.accessRegister r' = some p' ∧ p'.ReadyAt r ∧ p'.ReadyAt r' := by
  obtain ⟨b, hsim, hready⟩ := h
  obtain ⟨p', hp', hsim'⟩ := hsim.accessRegister r'
  exact ⟨p', hp', ⟨_, hsim', hready.trans (le_max_left _ _)⟩, _, hsim', ready_of_access b r'⟩

theorem Pipeline.Valid.advance (h : p.Valid) {n : ℤ} (hn : 0 < n) :
    ∃ p', p.advance n = some p' ∧ p'.Valid := by
  obtain ⟨b, hsim⟩ := h
  obtain ⟨p', hp', hsim'⟩ := hsim.advance hn
  exact ⟨p', hp', _, hsim'⟩

theorem Pipeline.Valid.reserveStore (h : p.Valid) (range : Range) {n : ℤ}
    (hn : 1 ≤ n ∧ n < intMax) :
    (p.reserveStore range n).Valid := by
  obtain ⟨b, hsim⟩ := h
  exact ⟨_, hsim.reserveStore range hn⟩

/-- A legal call that adds a latency for a ready register. -/
theorem Pipeline.ReadyAt.call (h : p.ReadyAt r) {c : Call} (hc : c.Legal)
    (hr : ∀ rd, c.result? = some rd → rd = r) : ∃ p', p.call c = some p' ∧ p'.Valid := by
  obtain ⟨b, hsim, hready⟩ := h
  obtain ⟨p', hp', hsim'⟩ := hsim.call hc fun rd hrd => by rwa [hr rd hrd]
  exact ⟨p', hp', _, hsim'⟩

theorem Pipeline.advance_numTotalCycles {p p' : Pipeline} {n : ℤ} (h : p.advance n = some p') :
    p'.numTotalCycles = p.numTotalCycles + BitVec.ofInt 64 n := by
  unfold Pipeline.advance at h
  simp only [Option.bind_eq_bind, Option.bind_eq_some_iff] at h
  obtain ⟨_, -, _, -, _, -, _, -, _, -, hp⟩ := h
  rw [← Option.some.inj hp]

theorem Pipeline.advance_of_nonpos (p : Pipeline) {n : ℤ} (hn : n ≤ 0) : p.advance n = none := by
  unfold Pipeline.advance
  simp [show ¬n > 0 by omega, failure]

/-- A latency that is added was not pending, so that its register was ready. -/
theorem Pipeline.Valid.addResultLatency {p' : Pipeline} (h : p.Valid) {l : ℤ}
    (hp : p.addResultLatency r l = some p') : p'.Valid := by
  obtain ⟨b, hsim⟩ := h
  have hguard : p.find r = false ∧ 0 < l := by
    by_contra hnot
    have hnone : p.addResultLatency r l = none := by
      by_cases hfind : p.find r = false
      · have hl : ¬l > 0 := fun hl => hnot ⟨hfind, hl⟩
        simp [Pipeline.addResultLatency, hfind, hl, failure]
      · simp [Pipeline.addResultLatency, hfind, failure]
    rw [hnone] at hp
    cases hp
  have hready : b.ready r ≤ b.now := by
    have hfind := hguard.1
    rw [hsim.find_eq] at hfind
    exact not_lt.1 (of_decide_eq_false hfind)
  obtain ⟨p'', hp'', hsim'⟩ := hsim.addResultLatency hready hguard.2
  rw [hp] at hp''
  cases hp''
  exact ⟨_, hsim'⟩

/-- A legal call that passes its assertions, in any order. -/
theorem Pipeline.Valid.call {p' : Pipeline} (h : p.Valid) {c : Call} (hc : c.Legal)
    (hp : p.call c = some p') : p'.Valid := by
  obtain ⟨b, hsim⟩ := id h
  cases c with
  | advance n =>
    obtain ⟨_, hq, hvalid⟩ := h.advance hc
    exact Option.some.inj (hq.symm.trans hp) ▸ hvalid
  | accessRegister r =>
    obtain ⟨_, hq, hready⟩ := h.accessRegister r
    exact Option.some.inj (hq.symm.trans hp) ▸ hready.valid
  | doMult rd x y =>
    obtain ⟨p₁, hp₁, hsim⟩ := hsim.reserveMult (show (0 : ℤ) < 17 by omega)
    refine Pipeline.Valid.addResultLatency (r := rd) (l := 18) ⟨_, hsim⟩ ?_
    simpa [Pipeline.call, Pipeline.doMult, Pipeline.getMultResultLatency, hp₁] using hp
  | doDiv rd x y =>
    obtain ⟨p₁, hp₁, hsim⟩ := hsim.reserveDiv (show (0 : ℤ) < 33 by omega)
    refine Pipeline.Valid.addResultLatency (r := rd) (l := 34) ⟨_, hsim⟩ ?_
    simpa [Pipeline.call, Pipeline.doDiv, Pipeline.getDivResultLatency, hp₁] using hp
  | doCsr rd => exact h.addResultLatency hp
  | reserveStore range n =>
    cases hp
    exact h.reserveStore range hc
  | doLoad range rd l =>
    by_cases hhas : p.hasStoreReservation range = true
    · obtain ⟨p₁, hp₁, hvalid⟩ := h.advance (show (0 : ℤ) < 1 by omega)
      refine hvalid.addResultLatency (r := rd) (l := int (l + if range.size < 4 then 1 else 0)) ?_
      simpa [Pipeline.call, Pipeline.doLoad, hhas, Pipeline.stall, hp₁] using hp
    · refine h.addResultLatency (r := rd) (l := l) ?_
      simpa [Pipeline.call, Pipeline.doLoad, hhas] using hp

end Valid

/-! ### Main result -/

/-- The pipeline timing model refines the scoreboard: in the simulator's order of calls, with
latencies that are `int`s, no assertion fails, the pending registers are unique with positive
latencies, and the cycle counter shows the scoreboard's clock. -/
theorem Pipeline.refines_scoreboard (c : BitVec 64) (calls : List Call)
    (hlegal : ∀ c ∈ calls, c.Legal) (hordered : Ordered calls) :
    ∃ p, (Pipeline.empty c).run calls = some p ∧
      (p.pendingRegisterLatencies.map Countdown.key).Nodup ∧
      (∀ e ∈ p.pendingRegisterLatencies, 0 < e.latency) ∧
      p.numTotalCycles = BitVec.ofInt 64 ((Scoreboard.start c.toInt).run calls).now := by
  obtain ⟨p, hp, hsim, -⟩ := run_sim c hlegal hordered
  exact ⟨p, hp, hsim.registers.nodup, hsim.registers.latency_pos, hsim.cycles⟩

theorem Pipeline.refines_scoreboard_mult :
    ∃ p, (Pipeline.empty 0).run [.reserveStore ⟨16, 20⟩ 1, .accessRegister 5, .doMult 5 3 4] =
        some p ∧
      (p.pendingRegisterLatencies.map Countdown.key).Nodup ∧
      (∀ e ∈ p.pendingRegisterLatencies, 0 < e.latency) ∧
      p.numTotalCycles = BitVec.ofInt 64 ((Scoreboard.start (BitVec.toInt (0 : BitVec 64))).run
        [.reserveStore ⟨16, 20⟩ 1, .accessRegister 5, .doMult 5 3 4]).now :=
  refines_scoreboard 0 _ (by simp [Call.Legal, intMax]) (by
    intro pre c post heq rd hrd
    rcases pre with _ | ⟨c₁, _ | ⟨c₂, _ | ⟨c₃, pre⟩⟩⟩ <;> simp at heq
    · obtain ⟨rfl, -⟩ := heq
      cases hrd
    · obtain ⟨-, rfl, -⟩ := heq
      cases hrd
    · obtain ⟨-, rfl, rfl, -⟩ := heq
      cases hrd
      rfl)

/-- A store of the longest time wraps around, and the next cycle finds it over already. -/
theorem Pipeline.not_refines_intMax : ¬∀ calls : List Call, (∀ c ∈ calls, c.Positive) →
    Ordered calls → ∃ p, (Pipeline.empty 0).run calls = some p := by
  intro hall
  have hpositive : ∀ c ∈ [Call.reserveStore ⟨16, 20⟩ intMax, .advance 1], c.Positive := by
    simp [Call.Positive, intMax]
  obtain ⟨p, hp⟩ := hall _ hpositive (by
    intro pre c post heq rd hrd
    rcases pre with _ | ⟨c₁, _ | ⟨c₂, pre⟩⟩ <;> simp at heq
    · obtain ⟨rfl, -⟩ := heq
      cases hrd
    · obtain ⟨-, rfl, -⟩ := heq
      cases hrd)
  have hnone : (Pipeline.empty 0).run [Call.reserveStore ⟨16, 20⟩ intMax, .advance 1] = none := by
    decide
  rw [hnone] at hp
  cases hp

end Vcil.Timing
