import Vcil.Lib.Interaction
import Vcil.System.GuestCalls

/-!
# Guest programs on the bridge

A program of the guest decides by the results so far which of the four functions it calls next, and
with which operands.

* `Ask`, `GuestProgram`: the calls of such a program, without the value that the local `rdata`
  happens to hold;
* `Running`, `running frame`: the machine in which the current call is executed as `Session` does,
  over the bridge, the serial line and the board;
* `Running.Alongside`: a session that makes the calls which the program makes when each returns the
  reference value;
* `running_value`: the program ends, with the value that it has on the reference functions.
-/

namespace Vcil.System

open Vcil.Rtl Vcil.Host Interaction Progress.Machine

/-- A call of one of the four functions. -/
structure Ask where
  op : Op
  x : Word
  y : Word
  deriving DecidableEq, Repr

namespace Ask

/-- The reference value. -/
def value (a : Ask) : Word := a.op.eval a.x a.y

/-- The call with what its local `rdata` holds at first. -/
def asked (a : Ask) (rdata : Word) : Asked := ⟨a.op, a.x, a.y, rdata⟩

end Ask

/-- A program of the guest. -/
abbrev GuestProgram (α : Type) := Program Ask Word α

variable {α : Type}

/-- The calls of a program from call number `n` on, when each returns the reference value; `garbage`
is what the local `rdata` holds in each of them. -/
def asks (garbage : ℕ → Word) : ℕ → GuestProgram α → List Asked
  | _, .done _ => []
  | n, .call a k => a.asked (garbage n) :: asks garbage (n + 1) (k a.value)

/-- The guest in a program: where it is in the current call, and how many have returned. -/
structure Running (α : Type) where
  program : GuestProgram α
  returned : ℕ
  pc : Pc
  rdata : Word
  bridge : Bridge
  device : Device

namespace Running

variable (garbage : ℕ → Word) (frame : ℕ)

/-- A program about to start, a new bridge, and the board after reset. -/
def init (p : GuestProgram α) : Running α :=
  ⟨p, 0, (Session.init []).guest.pc, 0, Bridge.init, Device.init⟩

variable (r : Running α)

/-- The call being executed. -/
def current : List Call :=
  match r.program with
  | .done _ => []
  | .call a _ => [(a.asked (garbage r.returned)).call]

/-- The current call alone. -/
def session : Session := ⟨⟨r.current garbage, r.pc, r.rdata, []⟩, r.bridge, r.device⟩

/-- What the session leaves: when the call has returned, the program goes on with its result. -/
def after (s : Session) : Running α where
  program :=
    match s.guest.results with
    | [] => r.program
    | w :: _ => r.program.next w
  returned :=
    match s.guest.results with
    | [] => r.returned
    | _ :: _ => r.returned + 1
  pc := s.guest.pc
  rdata := s.guest.rdata
  bridge := s.bridge
  device := s.device

/-- One step of the whole system. -/
def step (e : Event) : Running α := r.after ((r.session garbage).step frame e)

end Running

/-- The system as a machine. -/
def running (α : Type) (garbage : ℕ → Word) (frame : ℕ) :
    Progress.Machine (Running α) Event Kind := ⟨Running.step garbage frame, Kind.Fires⟩

section Runs

variable (garbage : ℕ → Word) {es : ℕ → Event}

/-- The results of a session never differ from the reference values. -/
theorem isPrefix_results {calls : List Asked} {s : Session} (hfair : (session 4).Fair es)
    (hs : Ready (calls.map Asked.call) [] s) (n : ℕ) :
    ((session 4).trace s es n).guest.results <+: calls.map Asked.value := by
  obtain ⟨⟨N, hN⟩, -⟩ := serves calls [] s es hfair hs
  have hend : ((session 4).trace s es N).guest.results = calls.map Asked.value := hN.results
  rcases Nat.le_total n N with h | h
  · exact hend ▸ results_trace h
  · have hlater : ((session 4).trace s es n).guest.results = calls.map Asked.value := by
      rw [← Nat.add_sub_cancel' h, trace_add, guest_trace hN.calls, hend]
    exact hlater ▸ List.prefix_rfl

/-- The session has the calls ahead that the program makes from here on, and the results together
with their values are all the results there will be. -/
structure Running.Alongside (garbage : ℕ → Word) (v : α) (all : List Word) (r : Running α)
    (s : Session) : Prop where
  calls : s.guest.calls = (asks garbage r.returned r.program).map Asked.call
  pc : s.guest.pc = r.pc
  rdata : s.guest.rdata = r.rdata
  bridge : s.bridge = r.bridge
  device : s.device = r.device
  results : s.guest.results ++ (asks garbage r.returned r.program).map Asked.value = all
  value : r.program.value Ask.value = v

theorem Running.Alongside.step {v : α} {all : List Word} {r : Running α} {s : Session}
    (h : r.Alongside garbage v all s) (e : Event)
    (hpre : (s.step 4 e).guest.results <+: all) :
    (r.step garbage 4 e).Alongside garbage v all (s.step 4 e) := by
  obtain ⟨⟨calls, pc, rdata, results⟩, bridge, device⟩ := s
  obtain ⟨program, returned, pc', rdata', bridge', device'⟩ := r
  obtain ⟨hcalls, hpc, hrdata, hbridge, hdevice, hresults, hvalue⟩ := h
  simp only at hcalls hpc hrdata hbridge hdevice hresults hvalue
  subst hpc hrdata hbridge hdevice
  cases e with
  | clock t => exact ⟨hcalls, rfl, rfl, rfl, rfl, hresults, hvalue⟩
  | arrive => exact ⟨hcalls, rfl, rfl, rfl, rfl, hresults, hvalue⟩
  | host full kept =>
    cases program with
    | done a =>
      subst hcalls
      exact ⟨rfl, rfl, rfl, rfl, rfl, hresults, hvalue⟩
    | call a k =>
      subst hcalls
      cases pc with
      | store j => exact ⟨rfl, rfl, rfl, rfl, rfl, hresults, hvalue⟩
      | waiting j w => exact ⟨rfl, rfl, rfl, rfl, rfl, hresults, hvalue⟩
      | loop j =>
        have hstep : ∀ calls results, Session.hostStep
            ⟨⟨(a.asked (garbage returned)).call :: calls, .loop j, rdata, results⟩, bridge, device⟩
              full kept =
            ⟨⟨(a.asked (garbage returned)).call :: calls,
              if rdata ≠ BitVec.ofNat 32 (j + 1) then .loop j else .afterLoop j,
              if rdata ≠ BitVec.ofNat 32 (j + 1) then swapReg32 mode (bridge.sm4Read 0x18 rdata)
              else rdata, results⟩, bridge, device⟩ := fun _ _ => by
          simp only [Session.hostStep]
          split_ifs <;> rfl
        simp only [Running.step, Running.session, Running.current, Session.step, asks,
          List.map_cons, hstep]
        exact ⟨rfl, rfl, rfl, rfl, rfl, hresults, hvalue⟩
      | result =>
        -- the word read is the next of all results
        have hnext : results ++ [swapReg32 mode (bridge.sm4Read 0x14 0)] <+: all := hpre
        rw [← hresults, List.prefix_append_right_inj, asks, List.map_cons,
          List.cons_prefix_cons] at hnext
        have hw : swapReg32 mode (bridge.sm4Read 0x14 0) = a.value := hnext.1
        refine ⟨?_, rfl, rfl, rfl, rfl, ?_, ?_⟩
        · show _ = (asks garbage (returned + 1) (k (swapReg32 mode (bridge.sm4Read 0x14 0)))).map _
          rw [hw]
          rfl
        · show results ++ [swapReg32 mode (bridge.sm4Read 0x14 0)] ++
            (asks garbage (returned + 1) (k (swapReg32 mode (bridge.sm4Read 0x14 0)))).map _ = all
          rw [hw, ← hresults, List.append_assoc]
          rfl
        · show (k (swapReg32 mode (bridge.sm4Read 0x14 0))).value Ask.value = v
          rw [hw]
          exact hvalue

/-- A session that makes the calls of the program stays alongside it. -/
theorem alongside_trace (p : GuestProgram α) (hfair : (session 4).Fair es) (n : ℕ) :
    ((running α garbage 4).trace (Running.init p) es n).Alongside garbage (p.value Ask.value)
      ((asks garbage 0 p).map Asked.value)
      ((session 4).trace (Session.init ((asks garbage 0 p).map Asked.call)) es n) := by
  have hcore : Core.Gathers [] Core.reset := ⟨rfl, rfl, Monitor.start, Core.inv_reset, rfl⟩
  have hready : Ready ((asks garbage 0 p).map Asked.call) []
      (Session.init ((asks garbage 0 p).map Asked.call)) :=
    ⟨rfl, rfl, rfl, Or.inl hcore, rfl, rfl, rfl⟩
  induction n with
  | zero => exact ⟨rfl, rfl, rfl, rfl, rfl, rfl, rfl⟩
  | succ n ih => exact ih.step garbage (es n) (isPrefix_results hfair hready (n + 1))

/-- A program ends, and only with the value that it has when the calls are the reference functions,
whatever the timing, as long as every frame takes at least four clocks and neither the line nor the
host stops. -/
theorem running_value (p : GuestProgram α) (hfair : (session 4).Fair es) :
    (∃ n, ((running α garbage 4).trace (Running.init p) es n).program =
        .done (p.value Ask.value)) ∧
      ∀ n a, ((running α garbage 4).trace (Running.init p) es n).program = .done a →
        a = p.value Ask.value := by
  have hvalue : ∀ n a, ((running α garbage 4).trace (Running.init p) es n).program = .done a →
      a = p.value Ask.value := fun n a ha => by
    have halong := (alongside_trace garbage p hfair n).value
    rwa [ha] at halong
  refine ⟨?_, hvalue⟩
  have hcore : Core.Gathers [] Core.reset := ⟨rfl, rfl, Monitor.start, Core.inv_reset, rfl⟩
  obtain ⟨⟨n, hn⟩, -⟩ := serves (asks garbage 0 p) []
    (Session.init ((asks garbage 0 p).map Asked.call)) es hfair
    ⟨rfl, rfl, rfl, Or.inl hcore, rfl, rfl, rfl⟩
  have hcalls := (alongside_trace garbage p hfair n).calls
  rw [hn.calls] at hcalls
  refine ⟨n, ?_⟩
  cases hp : ((running α garbage 4).trace (Running.init p) es n).program with
  | done a => rw [hvalue n a hp]
  | call a k =>
    rw [hp, asks] at hcalls
    cases hcalls

end Runs

end Vcil.System
