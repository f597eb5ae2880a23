import Vcil.Iss.BareMetal
import Vcil.Iss.Frames
import Vcil.Timing.MemAccess

/-!
# Store-to-load hazards

A load whose bytes a pending store has written is charged a stall.  The simulator does not keep the
bytes but ranges; here the stores of a run are logged beside it, and what a load is charged is
compared with the bytes of those whose reservation is pending.

* `storePipeline_ok`, `loadPipeline_ok`: the calls of the timing model that a store and a load make;
* `MemRun`: runs with the log of their stores, whatever happens between the stores;
* `noReservation_exec`: what the other instructions leave alone;
* `MemRun.step`: the steps of the simulator make such runs, if the stores are aligned;
* `stalls_iff`: what a load of a run finds;
* `hazard_exact_iff`: the stall is exact unless all the stores that the load meets are missed.
-/

-- an instruction is a chain of up to ten calls, each an instance
set_option synthInstance.maxSize 512

namespace Vcil.Iss

open Fallible
open Timing (MemAccess Pipeline Range)
open Timing.Pipeline (KeepsReservations)

variable {W α : Type}

/-! ### Loads and stores -/

/-- The bytes that a store writes. -/
def storeSize : Opcode → Option ℕ
  | .sb => some 1
  | .sh => some 2
  | .sw => some 4
  | _ => none

/-- The bytes that a load reads. -/
def loadSize : Opcode → Option ℕ
  | .lb | .lbu => some 1
  | .lh | .lhu => some 2
  | .lw => some 4
  | _ => none

section

variable (env : Env W) (i : Instruction) {op : Opcode} {n : ℕ}

theorem exec_store (hop : storeSize op = some n) :
    ∃ check f, exec env .pipeline i op = storePipeline i n check f := by
  cases op with
  | sb =>
    cases hop
    exact ⟨noCheck, fun addr v => env.storeByte addr (v.setWidth 8), rfl⟩
  | sh =>
    cases hop
    exact ⟨trapCheckAddrAlignment env 2 false, fun addr v => env.storeHalf addr (v.setWidth 16),
      rfl⟩
  | sw =>
    cases hop
    exact ⟨trapCheckAddrAlignment env 4 false, env.storeWord, rfl⟩
  | _ => cases hop

theorem exec_load (hop : loadSize op = some n) :
    ∃ check f, exec env .pipeline i op = loadPipeline i n check f := by
  cases op with
  | lb | lh | lw | lbu | lhu =>
    cases hop
    exact ⟨_, _, rfl⟩
  | _ => cases hop

end

/-- The timing model when `do_load` is called, after the accesses of both registers. -/
def atLoad (i : Instruction) (p : Pipeline) : Option Pipeline := do
  let p ← p.accessRegister i.rs1.toNat
  p.accessRegister i.rd.toNat

/-- Nothing is reserved. -/
def NoReservation (t t' : TimedHart W) : Prop := KeepsReservations t.pipeline t'.pipeline

instance : IsPreorder (TimedHart W) NoReservation where
  refl t := .refl t.pipeline
  trans _ _ _ := .trans

instance (m : M W α) : Respects NoReservation (lift m) := by
  constructor
  intro t
  unfold lift
  cases m t.hart <;> exact .refl t.pipeline

/-- A call of the timing model that is not `reserve_store`. -/
theorem respects_call (c : Timing.Call) (hc : ∀ range n, c ≠ .reserveStore range n) :
    Respects NoReservation (charge fun p => p.call c : PM W Unit) := by
  constructor
  intro t
  cases hp : t.pipeline.call c with
  | some p =>
    rw [charge_of_some hp]
    exact Pipeline.keeps_call hc hp
  | none =>
    rw [charge_of_none hp]
    exact .refl t.pipeline

instance (n : ℤ) : Respects NoReservation (charge fun p => p.advance n : PM W Unit) :=
  respects_call (.advance n) nofun

instance (range : Range) (rd : ℕ) :
    Respects NoReservation (charge fun p => p.doLoad range rd 2 : PM W Unit) :=
  respects_call (.doLoad range rd 2) nofun

instance (rd : ℕ) (a b : Word) :
    Respects NoReservation (charge fun p => p.doMult rd a b : PM W Unit) :=
  respects_call (.doMult rd a b) nofun

instance (rd : ℕ) (a b : Word) :
    Respects NoReservation (charge fun p => p.doDiv rd a b : PM W Unit) :=
  respects_call (.doDiv rd a b) nofun

instance (rd : ℕ) : Respects NoReservation (charge fun p => p.doCsr rd : PM W Unit) :=
  respects_call (.doCsr rd) nofun

instance (r : RegIdx) : Respects NoReservation (accessRegister r : PM W Unit) :=
  respects_call (.accessRegister r.toNat) nofun

instance (r : RegIdx) : Respects NoReservation (read r : PM W Word) := by
  unfold read
  infer_instance

instance (r : RegIdx) : Respects NoReservation (uRead r : PM W Word) := by
  unfold uRead
  infer_instance

instance (r : RegIdx) : Respects NoReservation (shamt r : PM W ℕ) := by
  unfold shamt
  infer_instance

instance (r : RegIdx) (v : Word) : Respects NoReservation (write r v : PM W Unit) := by
  unfold write
  infer_instance

section

variable {i : Instruction} {size : ℕ} {check : Word → M W Unit} {t t' : TimedHart W}

theorem charge_pipeline {call : Pipeline → Option Pipeline} {u : Unit}
    (h : charge call t = .ok u t') : call t.pipeline = some t'.pipeline := by
  cases hp : call t.pipeline with
  | some p =>
    rw [charge_of_some hp] at h
    cases h
    rfl
  | none =>
    rw [charge_of_none hp] at h
    cases h

/-- A store that is done has reserved its range. -/
theorem storePipeline_ok {f : Word → Word → Access W Unit}
    (h : storePipeline i size check f t = .ok () t') :
    ∃ p, KeepsReservations t.pipeline p ∧ t'.pipeline = p.reserveStore
      ⟨t.hart.regs i.rs1 + i.sImm, t.hart.regs i.rs1 + i.sImm + BitVec.ofNat 32 size⟩ 1 := by
  obtain ⟨a, t₁, hread, h⟩ := bind_eq_ok.1 h
  obtain ⟨rfl, -⟩ := read_hart hread
  obtain ⟨_, t₂, hcheck, h⟩ := bind_eq_ok.1 h
  obtain ⟨v, t₃, hvalue, h⟩ := bind_eq_ok.1 h
  obtain ⟨_, t₄, haccess, h⟩ := bind_eq_ok.1 h
  have hkeep : NoReservation t t₄ := by
    refine trans_of NoReservation (Respects.ok hread) ?_
    refine trans_of NoReservation (Respects.ok hcheck) ?_
    exact trans_of NoReservation (Respects.ok hvalue) (Respects.ok haccess)
  cases h
  exact ⟨t₄.pipeline, hkeep, rfl⟩

/-- A store that raises a trap has reserved nothing: the reservation comes last. -/
theorem storePipeline_error {f : Word → Word → Access W Unit} {e : Raise}
    (h : storePipeline i size check f t = .error e t') : NoReservation t t' := by
  have hlast : Closes NoReservation (fun m : PM W Unit => ∀ t, ∃ t', m t = .ok () t')
      (storePipeline i size check f) :=
    .bind fun _ => .bind fun _ => .bind fun _ => .bind fun _ => .last fun t => ⟨_, rfl⟩
  rcases hlast.rel t with hkeep | ⟨m, t₁, hdone, -, heq⟩
  · rwa [h] at hkeep
  · obtain ⟨t₂, hok⟩ := hdone t₁
    rw [h, hok] at heq
    cases heq

/-- A load that is done has called `do_load` after the accesses of both registers. -/
theorem loadPipeline_ok {f : Word → Access W Word}
    (h : loadPipeline i size check f t = .ok () t') :
    ∃ p, atLoad i t.pipeline = some p ∧ p.doLoad
      ⟨t.hart.regs i.rs1 + i.iImm, t.hart.regs i.rs1 + i.iImm + BitVec.ofNat 32 size⟩ i.rd.toNat 2 =
        some t'.pipeline := by
  obtain ⟨a, t₁, hread, h⟩ := bind_eq_ok.1 h
  obtain ⟨rfl, -⟩ := read_hart hread
  obtain ⟨_, t₂, hcheck, h⟩ := bind_eq_ok.1 h
  obtain ⟨v, t₃, haccess, h⟩ := bind_eq_ok.1 h
  obtain ⟨_, t₄, hwrite, h⟩ := bind_eq_ok.1 h
  obtain ⟨_, -, rfl⟩ := lift_ok hcheck
  obtain ⟨_, -, rfl⟩ := lift_ok haccess
  obtain ⟨_, t₅, hread', hreg⟩ := bind_eq_ok.1 hread
  obtain ⟨_, -, rfl⟩ := lift_ok hreg
  obtain ⟨_, t₆, hwrite', hset⟩ := bind_eq_ok.1 hwrite
  obtain ⟨_, -, rfl⟩ := lift_ok hset
  refine ⟨t₆.pipeline, ?_, charge_pipeline h⟩
  have h₁ := charge_pipeline hread'
  have h₂ := charge_pipeline hwrite'
  rw [atLoad, h₁]
  exact h₂

end

/-! ### Other instructions -/

section

variable (env : Env W) (i : Instruction)

instance (f : Word → Word → Word) : Respects NoReservation (opImmPipeline i f : PM W Unit) := by
  unfold opImmPipeline
  infer_instance

instance (f : Word → Word → Word) : Respects NoReservation (uOpImmPipeline i f : PM W Unit) := by
  unfold uOpImmPipeline
  infer_instance

instance (f : Word → Word → Word) : Respects NoReservation (opPipeline i f : PM W Unit) := by
  unfold opPipeline
  infer_instance

instance (f : Word → Word → Word) : Respects NoReservation (uOpPipeline i f : PM W Unit) := by
  unfold uOpPipeline
  infer_instance

instance (f : Word → ℕ → Word) : Respects NoReservation (shiftPipeline i f : PM W Unit) := by
  unfold shiftPipeline
  infer_instance

instance (f : Word → ℕ → Word) : Respects NoReservation (uShiftPipeline i f : PM W Unit) := by
  unfold uShiftPipeline
  infer_instance

instance (f : Word → ℕ → Word) : Respects NoReservation (shiftImmPipeline i f : PM W Unit) := by
  unfold shiftImmPipeline
  infer_instance

instance (f : Word → ℕ → Word) : Respects NoReservation (uShiftImmPipeline i f : PM W Unit) := by
  unfold uShiftImmPipeline
  infer_instance

instance (size : ℕ) (check : Word → M W Unit) (f : Word → Access W Word) :
    Respects NoReservation (loadPipeline i size check f) := by
  unfold loadPipeline
  infer_instance

instance (c : Word → Word → Bool) : Respects NoReservation (branchPipeline env i c) := by
  unfold branchPipeline
  infer_instance

instance (c : Word → Word → Bool) : Respects NoReservation (uBranchPipeline env i c) := by
  unfold uBranchPipeline
  infer_instance

instance (value : PM W Word) [Respects NoReservation value] :
    Respects NoReservation (csrWritePipeline env i value) := by
  unfold csrWritePipeline csrToRdPipeline csrValuePipeline
  infer_instance

instance (checked w : Bool) (value : PM W Word) [Respects NoReservation value]
    (f : Word → Word → Word) :
    Respects NoReservation (csrChangePipeline env i checked w value f) := by
  unfold csrChangePipeline csrValuePipeline setRdPipeline
  infer_instance

instance (f : Word → Word → Word) : Respects NoReservation (mulPipeline i f : PM W Unit) := by
  unfold mulPipeline
  infer_instance

instance (f : Word → Word → Word) : Respects NoReservation (divPipeline i f : PM W Unit) := by
  unfold divPipeline
  infer_instance

instance (op : Op) : Respects NoReservation (advanceNice op : PM W Unit) := by
  unfold advanceNice
  infer_instance

instance : Respects NoReservation (custom3Pipeline env i) := by
  unfold custom3Pipeline
  split <;> infer_instance

/-- Only the stores reserve, and the AMOs perhaps. -/
theorem noReservation_exec {op : Opcode} (hstore : storeSize op = none)
    (hamo : amoOperation op = none) : Respects NoReservation (exec env .pipeline i op) := by
  show Respects NoReservation (execPipeline env i op)
  unfold execPipeline
  split <;> first
    | infer_instance
    | unfold luiPipeline; infer_instance
    | unfold auipcPipeline; infer_instance
    | unfold jalPipeline; infer_instance
    | unfold jalrPipeline; infer_instance
    | unfold mulhsuPipeline; infer_instance
    | unfold lrWPipeline; infer_instance
    | unfold scWPipeline; infer_instance
    | cases hstore
    | rw [hamo]; infer_instance

end

/-! ### Runs -/

/-- Runs of the simulator with the stores that they have done.  Between the stores any number of
loads, other instructions, traps, interrupts and clock cycles may come, as long as they reserve
nothing. -/
inductive MemRun (env : Env W) : List MemAccess → TimedHart W → Prop
  | start (h : Hart W) (cycles : BitVec 64) : MemRun env [] ⟨h, .empty cycles⟩
  | store {log : List MemAccess} {t t' : TimedHart W} (run : MemRun env log t) {i : Instruction}
      {op : Opcode} {s : MemAccess} (hop : storeSize op = some s.size)
      (haddr : s.addr = t.hart.regs i.rs1 + i.sImm) (hexec : exec env .pipeline i op t = .ok () t') :
      MemRun env (log ++ [s]) t'
  | quiet {log : List MemAccess} {t t' : TimedHart W} (run : MemRun env log t)
      (hkeep : NoReservation t t') : MemRun env log t'

section

variable {env : Env W} {log : List MemAccess} {t t' : TimedHart W}

/-- What is pending was reserved by a store of the run. -/
theorem MemRun.recorded (h : MemRun env log t) : t.pipeline.Recorded log := by
  induction h with
  | start h cycles => exact Pipeline.recorded_empty cycles
  | @store log t t' run i op s hop haddr hexec ih =>
    obtain ⟨check, f, htext⟩ := exec_store env i hop
    rw [htext] at hexec
    obtain ⟨p, hkeep, hp⟩ := storePipeline_ok hexec
    rw [hp, ← haddr]
    exact (ih.keeps hkeep).reserveStore s 1
  | quiet run hkeep ih => exact ih.keeps hkeep

/-- The instruction is no AMO, and the address of a store is aligned. -/
def Aligned (i : Instruction) (op : Opcode) (h : Hart W) : Prop :=
  amoOperation op = none ∧
    ∀ n, storeSize op = some n → ∃ s : MemAccess, s.size = n ∧ s.addr = h.regs i.rs1 + i.sImm

/-- One more instruction, whatever its outcome. -/
theorem MemRun.instruction (h : MemRun env log t) {i : Instruction} {op : Opcode}
    (hop : Aligned i op t.hart) :
    ∃ log', log <+: log' ∧ MemRun env log' (final (exec env .pipeline i op t)) := by
  obtain ⟨hamo, haligned⟩ := hop
  cases hstore : storeSize op with
  | none =>
    have hkeep := noReservation_exec env i hstore hamo
    exact ⟨log, List.prefix_rfl, h.quiet (hkeep.rel t)⟩
  | some n =>
    obtain ⟨s, rfl, haddr⟩ := haligned n hstore
    cases hexec : exec env .pipeline i op t with
    | ok u t' => exact ⟨log ++ [s], List.prefix_append _ _, h.store hstore haddr hexec⟩
    | error e t' =>
      obtain ⟨check, f, htext⟩ := exec_store env i hstore
      rw [htext] at hexec
      exact ⟨log, List.prefix_rfl, h.quiet (storePipeline_error hexec)⟩

theorem noReservation_takeStep (t : TimedHart W) :
    NoReservation (final (execStep env .pipeline t)) (final (takeStep env .pipeline t)) := by
  have hdeliver : Respects NoReservation (lift (deliverInterrupt env)) := inferInstance
  have hcatch (e : Raise) : Respects NoReservation (lift (catchTrap env e)) := inferInstance
  rw [takeStep_eq]
  cases execStep env .pipeline t with
  | ok u t₁ =>
    dsimp only
    have hkeep := hdeliver.rel t₁
    cases hr : lift (deliverInterrupt env) t₁ with
    | ok u t₂ =>
      rw [hr] at hkeep
      exact hkeep
    | error e t₂ =>
      rw [hr] at hkeep
      exact trans_of NoReservation hkeep ((hcatch e).rel t₂)
  | error e t₁ => exact (hcatch e).rel t₁

instance : Respects NoReservation (afterInstr env .pipeline) := by
  unfold afterInstr performanceAndSyncUpdate
  infer_instance

/-- One more step of the simulator, with its traps, interrupts and clock cycle. -/
theorem MemRun.step (h : MemRun env log t)
    (hop : ∀ h₁, fetch env (startInstr t.hart) = .ok () h₁ → Aligned h₁.instr h₁.op h₁) :
    ∃ log', log <+: log' ∧ MemRun env log' (final (runStep env .pipeline t)) := by
  rw [runStep_eq]
  split_ifs with hzero hbreak
  · exact ⟨log, List.prefix_rfl, h.quiet (.refl _)⟩
  · obtain ⟨log', hprefix, hexec⟩ : ∃ log', log <+: log' ∧ MemRun env log'
        (final (execStep env .pipeline { t with hart := startInstr t.hart })) := by
      rw [execStep_eq]
      cases hfetch : fetch env (startInstr t.hart) with
      | ok u h₁ =>
        have hfetched : MemRun env log { t with hart := h₁ } := h.quiet (.refl _)
        exact hfetched.instruction (hop h₁ hfetch)
      | error e h₁ => exact ⟨log, List.prefix_rfl, h.quiet (.refl _)⟩
    have htake := hexec.quiet (noReservation_takeStep { t with hart := startInstr t.hart })
    refine ⟨log', hprefix, ?_⟩
    cases hr : takeStep env .pipeline { t with hart := startInstr t.hart } with
    | ok u t₁ =>
      rw [hr] at htake
      rw [bind_of_ok hr]
      exact htake.quiet (Respects.rel t₁)
    | error e t₁ =>
      rw [hr] at htake
      rw [bind_of_error hr]
      exact htake
  · exact ⟨log, List.prefix_rfl, h⟩

/-! ### What a load finds -/

/-- A pending store has written a byte that the load reads. -/
def MeetsPending (p : Pipeline) (log : List MemAccess) (l : MemAccess) : Prop :=
  ∃ s ∈ log, p.Pending s ∧ s.Meets l

/-- … and the comparison of the ranges does not miss it. -/
def FindsPending (p : Pipeline) (log : List MemAccess) (l : MemAccess) : Prop :=
  ∃ s ∈ log, p.Pending s ∧ s.Meets l ∧ ¬s.Missed l

/-- A load that is done, its timing model at the call of `do_load`, and one cycle more or none. -/
theorem stalls_iff (hrun : MemRun env log t) {i : Instruction} {op : Opcode} {l : MemAccess}
    (hop : loadSize op = some l.size) (haddr : l.addr = t.hart.regs i.rs1 + i.iImm)
    (hexec : exec env .pipeline i op t = .ok () t') :
    ∃ p, atLoad i t.pipeline = some p ∧
      (t'.pipeline.numTotalCycles = p.numTotalCycles + 1 ↔ FindsPending p log l) ∧
      (t'.pipeline.numTotalCycles = p.numTotalCycles ↔ ¬FindsPending p log l) := by
  obtain ⟨check, f, htext⟩ := exec_load env i hop
  rw [htext] at hexec
  obtain ⟨p, hp, hload⟩ := loadPipeline_ok hexec
  rw [← haddr] at hload
  refine ⟨p, hp, ?_⟩
  have hkeep : KeepsReservations t.pipeline p := by
    simp only [atLoad, Option.bind_eq_bind, Option.bind_eq_some_iff] at hp
    obtain ⟨p₁, hp₁, hp⟩ := hp
    exact (Pipeline.keeps_accessRegister hp₁).trans (Pipeline.keeps_accessRegister hp)
  have hcycles : t'.pipeline.numTotalCycles =
      p.numTotalCycles + if p.hasStoreReservation l.range then 1 else 0 :=
    (Pipeline.doLoad_ok hload).2
  have hfound : p.hasStoreReservation l.range = true ↔ FindsPending p log l :=
    Pipeline.hasStoreReservation_iff (hrun.recorded.keeps hkeep) l
  rw [← hfound, hcycles]
  cases p.hasStoreReservation l.range <;> simp

/-- In every run the stall of a load tells exactly whether a pending store has written a byte that
it reads, unless it misses all the pending stores that have. -/
theorem hazard_exact_iff (hrun : MemRun env log t) {i : Instruction} {op : Opcode} {l : MemAccess}
    (hop : loadSize op = some l.size) (haddr : l.addr = t.hart.regs i.rs1 + i.iImm)
    (hexec : exec env .pipeline i op t = .ok () t') :
    ∃ p, atLoad i t.pipeline = some p ∧
      ((t'.pipeline.numTotalCycles = p.numTotalCycles + 1 ↔ MeetsPending p log l) ↔
        (MeetsPending p log l → FindsPending p log l)) := by
  obtain ⟨p, hp, hstall, -⟩ := stalls_iff hrun hop haddr hexec
  have hmeets : FindsPending p log l → MeetsPending p log l := by
    rintro ⟨s, hs, hpending, hmeets, -⟩
    exact ⟨s, hs, hpending, hmeets⟩
  refine ⟨p, hp, ?_⟩
  rw [hstall]
  exact ⟨fun h => h.2, fun h => ⟨hmeets, h⟩⟩

end

/-! ### A word that is stored and loaded -/

/-- The word at `addr`. -/
def wordAt (addr : Word) (h : addr.toNat % 4 = 0) : MemAccess := ⟨addr, 4, .inr (.inr rfl), h⟩

/-- Before the store; the address is in `x1`. -/
def beforeStore (addr : Word) : TimedHart BareMemory where
  hart := { Hart.reset machineMode 0 0 fun _ => 0 with regs := fun r => if r = 1 then addr else 0 }
  pipeline := .empty 0

/-- After `SW x0, 0(x1)`. -/
def afterStore (addr : Word) : TimedHart BareMemory :=
  final (exec Env.bare .pipeline (.ofWord 0x0000A023) .sw (beforeStore addr))

/-- A clock cycle later. -/
def beforeReload (addr : Word) : TimedHart BareMemory :=
  final (charge (fun p => p.advance 1) (afterStore addr))

theorem memRun_beforeReload {addr : Word} (h : addr.toNat % 4 = 0)
    (hexec : exec Env.bare .pipeline (.ofWord 0x0000A023) .sw (beforeStore addr) =
      .ok () (afterStore addr)) : MemRun Env.bare [wordAt addr h] (beforeReload addr) := by
  have hstart : MemRun Env.bare [] (beforeStore addr) := .start _ _
  have hstore : MemRun Env.bare ([] ++ [wordAt addr h]) (afterStore addr) :=
    hstart.store (i := .ofWord 0x0000A023) rfl (BitVec.add_zero addr).symm hexec
  exact hstore.quiet (Respects.rel _)

/-- `LW x2, 0(x1)` in the middle of the memory. -/
theorem hazard_exact_64 : ∃ p, atLoad (.ofWord 0x0000A103) (beforeReload 64).pipeline = some p ∧
    (((final (exec Env.bare .pipeline (.ofWord 0x0000A103) .lw (beforeReload 64))).pipeline.numTotalCycles
        = p.numTotalCycles + 1 ↔ MeetsPending p [wordAt 64 rfl] (wordAt 64 rfl)) ↔
      (MeetsPending p [wordAt 64 rfl] (wordAt 64 rfl) →
        FindsPending p [wordAt 64 rfl] (wordAt 64 rfl))) :=
  hazard_exact_iff (memRun_beforeReload rfl rfl)
    (show loadSize .lw = some (wordAt 64 rfl).size from rfl) rfl rfl

/-- The word at the top of the address space: its reservation is pending, the load reads the bytes
that were written, and is charged no stall. -/
theorem not_hazard_exact_top : MemRun Env.bare [wordAt 0xFFFFFFFC rfl] (beforeReload 0xFFFFFFFC) ∧
    ∃ p t', atLoad (.ofWord 0x0000A103) (beforeReload 0xFFFFFFFC).pipeline = some p ∧
      exec Env.bare .pipeline (.ofWord 0x0000A103) .lw (beforeReload 0xFFFFFFFC) = .ok () t' ∧
      MeetsPending p [wordAt 0xFFFFFFFC rfl] (wordAt 0xFFFFFFFC rfl) ∧
      t'.pipeline.numTotalCycles ≠ p.numTotalCycles + 1 := by
  refine ⟨memRun_beforeReload rfl rfl, _, _, rfl, rfl, ?_, ?_⟩
  · exact ⟨_, List.mem_singleton.2 rfl, by decide, by decide +kernel⟩
  · decide

end Vcil.Iss
