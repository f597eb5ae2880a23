import Mathlib.Logic.Function.Iterate
import Vcil.System.GuestCalls

/-!
# Deadlock of the bridge

The guest writes any words to the first three registers, in the order of the driver, and `read()`
returns what it likes of the bytes that are there, or fails.

* `Session.hostStepAny`: a step of the host with such a `read()`, `Session.Reached` the states that
  runs get to;
* `Deadlocked`: the bridge waits for a byte that no one will send;
* `never_deadlocked`: with known opcodes and whole replies there is no deadlock;
* `deadlocked_unknown`: with an unknown opcode there is one.
-/

namespace Vcil.System

open Vcil.Rtl Vcil.Rtl.Core Vcil.Host Progress.Machine

/-- What a `read()` makes of the bytes that are there: it fails, or takes at most `n` of them. -/
inductive ReadOutcome
  | failed
  | upTo (n : ℕ)
  deriving DecidableEq, Repr

/-- A clock of the board, a byte that reaches the host, or a step of the host. -/
inductive BusEvent
  | clock (t : Tick)
  | arrive
  | host (o : ReadOutcome) (kept : ℕ)
  deriving DecidableEq, Repr

/-- The opcode of the first word is one of the four. -/
def Call.Known (c : Call) : Prop := (Op.decode (c.code.extractLsb' 16 16)).isSome = true

instance (c : Call) : Decidable c.Known :=
  inferInstanceAs (Decidable ((Op.decode (c.code.extractLsb' 16 16)).isSome = true))

namespace Session

/-- The result of a `read()` of at most `size` bytes. -/
def readResult (d : Device) (size : ℕ) : ReadOutcome → ReadResult
  | .failed => none
  | .upTo n => some (d.rx.take (min n size))

/-- A step of the guest or of the bridge. -/
def hostStepAny (s : Session) (o : ReadOutcome) (kept : ℕ) : Session :=
  match s.guest.calls, s.guest.pc with
  | _ :: _, .waiting k w =>
      let r := readResult s.device w.size o
      let p := s.bridge.resume w r
      { guest := { s.guest with pc := .inStore k p }
        bridge := p.bridge
        device := transmit (s.device.read (r.getD []).length) p.sends }
  | _, _ => s.hostStep true kept

/-- One step of the whole system. -/
def stepAny (s : Session) : BusEvent → Session
  | .clock t => { s with device := s.device.clock 4 t }
  | .arrive => { s with device := s.device.arrive }
  | .host o kept => s.hostStepAny o kept

/-- A `read()` returns either nothing or all the bytes asked for. -/
def wholeRead (s : Session) (e : BusEvent) : Bool :=
  match e, s.guest.pc with
  | .host o _, .waiting _ w =>
      match readResult s.device w.size o with
      | none => false
      | some bs => bs.length = 0 ∨ bs.length = w.size
  | _, _ => true

/-- The states that runs from `s` get to by steps that are `ok`. -/
inductive Reached (ok : Session → BusEvent → Bool) (s : Session) : Session → Prop
  | start : Reached ok s s
  | step {s' : Session} {e : BusEvent} (h : Reached ok s s') (hok : ok s' e = true) :
      Reached ok s (s'.stepAny e)

end Session

/-- The core after `n` clocks without input. -/
def quiet (core : Core) (n : ℕ) : Core := (fun s => s.step (still false))^[n] core

theorem quiet_fixed {core : Core} (h : core.step (still false) = core) (n : ℕ) :
    quiet core n = core :=
  Function.iterate_fixed (f := fun s : Core => s.step (still false)) h n

/-- The bridge waits in a read loop, no byte is under way in either direction, and the core will
not send one by itself. -/
structure Deadlocked (s : Session) : Prop where
  calls : s.guest.calls ≠ []
  waits : ∃ k w, s.guest.pc = .waiting k w ∧ s.device.rx.length < w.size
  down : s.device.down = []
  up : s.device.up = []
  tx : s.device.tx = none
  silent : ∀ n, (quiet s.device.core n).oDataValid = false

section Progress

variable {s : Session} {kept : ℕ}

/-! ### Runs with whole reads -/

/-- A step of the host with a whole read, or without a read. -/
theorem hostStepAny_whole {o : ReadOutcome} (h : s.wholeRead (.host o kept) = true) :
    ∃ full, s.hostStepAny o kept = s.hostStep full kept := by
  cases hcalls : s.guest.calls with
  | nil =>
    refine ⟨true, ?_⟩
    simp only [Session.hostStepAny, hcalls]
  | cons c rest =>
    cases hpc : s.guest.pc with
    | store k | loop k | result =>
      refine ⟨true, ?_⟩
      simp only [Session.hostStepAny, hcalls, hpc]
    | waiting k w =>
      cases o with
      | failed =>
        simp only [Session.wholeRead, hpc, Session.readResult] at h
        exact Bool.noConfusion h
      | upTo n =>
        simp only [Session.wholeRead, hpc, Session.readResult, decide_eq_true_eq,
          List.length_eq_zero_iff] at h
        rcases h with hnil | hall
        · refine ⟨false, ?_⟩
          have hnone : Session.readable s.device w.size false = [] := by
            simp [Session.readable]
          simp only [Session.hostStepAny, Session.hostStep, hcalls, hpc, Session.readResult, hnil,
            hnone, Option.getD_some]
        · refine ⟨true, ?_⟩
          rw [List.length_take] at hall
          have hfull : Session.readable s.device w.size true = s.device.rx.take (min n w.size) := by
            rw [Session.readable, if_pos ⟨rfl, by omega⟩, show min n w.size = w.size by omega]
          simp only [Session.hostStepAny, Session.hostStep, hcalls, hpc, Session.readResult, hfull,
            Option.getD_some]

theorem stepAny_whole {e : BusEvent} (h : s.wholeRead e = true) :
    ∃ e' : Event, s.stepAny e = s.step 4 e' := by
  cases e with
  | clock t => exact ⟨.clock t, rfl⟩
  | arrive => exact ⟨.arrive, rfl⟩
  | host o kept =>
    obtain ⟨full, hfull⟩ := hostStepAny_whole h
    exact ⟨.host full kept, hfull⟩

theorem reached_trace {s' : Session} (h : Session.Reached Session.wholeRead s s') :
    ∃ es n, (session 4).trace s es n = s' := by
  induction h with
  | start => exact ⟨fun _ => .arrive, 0, rfl⟩
  | @step s' e h hok ih =>
    obtain ⟨es, n, rfl⟩ := ih
    obtain ⟨e', he'⟩ := stepAny_whole hok
    refine ⟨fun i => if i < n then es i else e', n + 1, ?_⟩
    have hsame : (session 4).trace s (fun i => if i < n then es i else e') n =
        (session 4).trace s es n :=
      trace_congr fun i hi => if_pos hi
    show Session.step 4 _ (if n < n then es n else e') = _
    rw [hsame, if_neg (Nat.lt_irrefl n), he']

/-- A sequence of known requests is served to its end. -/
theorem known_return {calls : List Call} (hknown : ∀ c ∈ calls, c.Known) {res : List Word}
    {es : ℕ → Event} (hfair : (session 4).Fair es) (hs : Ready calls res s) :
    ∃ n, ((session 4).trace s es n).guest.calls = [] := by
  induction calls generalizing res s es with
  | nil => exact ⟨0, hs.calls⟩
  | cons c calls ih =>
    obtain ⟨op, hop⟩ := Option.isSome_iff_exists.1 (hknown c List.mem_cons_self)
    obtain ⟨n, hn, -⟩ := request_returns (Call.request_asks_of hop) calls res s es hfair hs
    obtain ⟨m, hm⟩ := ih (fun c hc => hknown c (List.mem_cons_of_mem _ hc)) (hfair.shift n) hn
    exact ⟨n + m, by rwa [trace_add]⟩

/-! ### A deadlock stays -/

theorem Deadlocked.at (h : Deadlocked s) :
    At (fun core => ∀ n, (quiet core n).oDataValid = false) none s.device.rx s.device :=
  ⟨h.silent, h.tx, h.down, by rw [h.up, List.append_nil]⟩

theorem Deadlocked.clock (h : Deadlocked s) (t : Tick) :
    Deadlocked { s with device := s.device.clock 4 t } := by
  have hat : At (fun core => ∀ n, (quiet core n).oDataValid = false) none s.device.rx
      (s.device.clock 4 t) := h.at.clock_free t (h.silent 0) fun n => h.silent (n + 1)
  exact ⟨h.calls, h.waits, hat.down, List.append_right_eq_self.1 hat.queue, hat.tx, hat.core⟩

theorem Deadlocked.arrive (h : Deadlocked s) :
    Deadlocked { s with device := s.device.arrive } := by
  have hup : s.device.arrive.up = [] := by
    show s.device.up.tail = []
    rw [h.up]
    rfl
  have hrx : s.device.arrive.rx = s.device.rx := by
    show s.device.rx ++ s.device.up.head?.toList = s.device.rx
    rw [h.up]
    exact List.append_nil _
  obtain ⟨k, w, hpc, hlt⟩ := h.waits
  exact ⟨h.calls, ⟨k, w, hpc, by rwa [hrx]⟩, h.down, hup, h.tx, h.silent⟩

theorem Deadlocked.host (h : Deadlocked s) (full : Bool) (kept : ℕ) :
    Deadlocked (s.hostStep full kept) := by
  obtain ⟨c, rest, hcalls⟩ := List.exists_cons_of_ne_nil h.calls
  obtain ⟨k, w, hpc, hlt⟩ := h.waits
  have hon : On c rest s.guest.results (.waiting k w) (fun _ => True) (fun _ => True) s :=
    ⟨hcalls, rfl, hpc, trivial, trivial⟩
  obtain ⟨hnext, hdevice⟩ := hon.read_nothing (fun _ _ h => h)
    (readable_lt hlt full)
  refine ⟨?_, ⟨k, w, hnext.pc, ?_⟩, ?_, ?_, ?_, ?_⟩
  · rw [hnext.calls]
    exact List.cons_ne_nil _ _
  all_goals rw [hdevice]
  exacts [hlt, h.down, h.up, h.tx, h.silent]

theorem Deadlocked.step (h : Deadlocked s) (e : Event) : Deadlocked (s.step 4 e) := by
  cases e with
  | clock t => exact h.clock t
  | arrive => exact h.arrive
  | host full kept => exact h.host full kept

end Progress

/-! ### Main result -/

/-- If the opcodes are known and every `read()` returns nothing or all it asks for, no state that is
reached is a deadlock. -/
theorem never_deadlocked (calls : List Call) (hknown : ∀ c ∈ calls, c.Known) (s : Session)
    (h : Session.Reached Session.wholeRead (Session.init calls) s) : ¬Deadlocked s := by
  have hcore : Gathers [] Core.reset := ⟨rfl, rfl, Monitor.start, inv_reset, rfl⟩
  have hready : Ready calls [] (Session.init calls) :=
    ⟨rfl, rfl, rfl, Or.inl hcore, rfl, rfl, rfl⟩
  obtain ⟨es, n, rfl⟩ := reached_trace h
  refine trap_unreachable fair_inTurn (fun es hfair => known_return hknown hfair hready)
    (fun s e hs => ?_) (fun s e hs => hs.step e) (fun s hs hd => hd.calls hs) es n
  show (s.step 4 e).guest.calls = []
  rw [guest_step e hs, hs]

/-- All reads of a run are whole. -/
def wholeRun (s : Session) : List BusEvent → Bool
  | [] => true
  | e :: es => s.wholeRead e && wholeRun (s.stepAny e) es

theorem reached_run {s s' : Session} (h : Session.Reached Session.wholeRead s s')
    {es : List BusEvent} (hes : wholeRun s' es = true) :
    Session.Reached Session.wholeRead s (Clocked.run Session.stepAny s' es) := by
  induction es generalizing s' with
  | nil => exact h
  | cons e es ih =>
    obtain ⟨hok, hrest⟩ := (Bool.and_eq_true_iff).1 hes
    exact ih (h.step hok) hrest

/-- Three register writes with everything that the board and the host do about them, and the begin
of the fourth. -/
def fourWrites : List BusEvent :=
  let host := BusEvent.host (.upTo 5) 0
  let clocks (n : ℕ) := List.replicate n (BusEvent.clock ⟨true, true, true⟩)
  let write := [host] ++ clocks 28 ++ [.arrive, host, host, host]
  write ++ write ++ write ++ [host] ++ clocks 6

theorem never_deadlocked_fourWrites :
    ¬Deadlocked (Clocked.run Session.stepAny (Session.init [Call.custom3Sm3p0 1 0]) fourWrites) :=
  never_deadlocked [Call.custom3Sm3p0 1 0] (fun c hc => by
    rw [List.mem_singleton.1 hc]
    decide) _ (reached_run .start (by decide +kernel))

/-- Nothing answers the poll after a request with an unknown opcode: the core has dropped the
request, and takes the poll for the first byte of the next. -/
theorem deadlocked_unknown :
    ∃ s, Session.Reached Session.wholeRead (Session.init [⟨0, 0, 0, 0⟩]) s ∧ Deadlocked s ∧
      s.device.rx = [] := by
  have hwhole : wholeRun (Session.init [⟨0, 0, 0, 0⟩]) fourWrites = true := by decide +kernel
  refine ⟨_, reached_run .start hwhole, ?_, by decide +kernel⟩
  refine ⟨by decide +kernel, ⟨3, .poll, by decide +kernel, by decide +kernel⟩, by decide +kernel,
    by decide +kernel, by decide +kernel, fun n => ?_⟩
  rw [quiet_fixed (by decide +kernel)]
  decide +kernel

end Vcil.System
