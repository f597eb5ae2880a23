import Vcil.Iss.BareMetal
import Vcil.Lib.Deadlines
import Vcil.Timing.Deadlines

/-!
# The cycles of a run

In the `PIPELINE_TIMING` build instructions overlap: an instruction takes one cycle, and a result
that comes later is waited for when it is used.  A run is never slower than one in which every
instruction is waited for at once, and never faster than a cycle for each.

* `Opcode.latency`: the cycles of an instruction that is waited for;
* `RunOf`: the runs, with the instructions that they execute;
* `Within`, `Before`: the deadlines before and within an instruction;
* `takes_execPipeline`: what an instruction puts the deadline off by;
* `executes_within`: the cycles of a run.
-/

-- a case is a chain of ten calls, each an instance
set_option synthInstance.maxSize 512

namespace Vcil.Iss

open Fallible
open Timing (Pipeline Range Call)

variable {W α : Type}

/-! ### Instructions and runs -/

/-- The cycles, beyond its first, until everything that the instruction begins is over; `amo` are
those that `execute_amo` charges. -/
def Opcode.latency (amo : ℕ) : Opcode → ℕ
  | .lw | .lrW => 2
  | .lb | .lbu | .lh | .lhu => 3
  | .csrrw | .csrrs | .csrrc | .csrrwi | .csrrsi | .csrrci => 4
  | .mul | .mulh | .mulhu | .mulhsu => 17
  | .div | .divu | .rem | .remu => 33
  -- a byte counts the cycles of the coprocessor
  | .custom3 => 254
  | .amoswapW | .amoaddW | .amoxorW | .amoandW | .amoorW | .amominW | .amominuW | .amomaxW
  | .amomaxuW => amo
  | _ => 0

theorem Opcode.latency_of_amo {amo : ℕ} {op : Opcode} {f : Word → Word → Word}
    (hop : amoOperation op = some f) : op.latency amo = amo := by
  cases op <;> first
    | rfl
    | cases hop

/-- `execute_amo` charges its cycles with calls of the timing model. -/
def Env.AmoTakes (env : Env W) (amo : ℕ) : Prop :=
  ∀ i p, ∃ calls : List Call, (∀ c ∈ calls, c.Legal) ∧ (calls.map Call.latency).sum ≤ amo ∧
    p.run calls = some (env.amoCharge i p)

/-- From the first state to the second, a run executes these instructions. -/
inductive RunOf (env : Env W) (t : TimedHart W) : List Opcode → TimedHart W → Prop
  | refl : RunOf env t [] t
  | tail {ops : List Opcode} {t₁ t₂ : TimedHart W} (hrun : RunOf env t ops t₁)
      (hbreak : atBreakpoint t₁.hart = false) (hr : runStep env .pipeline t₁ = .ok () t₂) :
      RunOf env t (ops ++ [fetched env t₁.hart]) t₂

/-! ### Deadlines -/

/-- The clock has reached `s`, and it and everything under way are over at `e`. -/
def Within (s : ℤ) (t : TimedHart W) (e : ℤ) : Prop := t.pipeline.Within s e e

/-- … and a tick of the clock after it, too. -/
def Before (s : ℤ) (t : TimedHart W) (e : ℤ) : Prop := t.pipeline.Within s (e - 1) e

instance (s : ℤ) : Deadline (Within (W := W) s) (Before s) where
  tick _ _ h := Pipeline.Within.mono h (by omega) (by omega)
  mono _ _ _ hle h := Pipeline.Within.mono h (by omega) hle

section Parts

variable {s : ℤ}

instance (m : M W α) : Respects (NoLater (Within s)) (lift m) := by
  constructor
  intro t e h
  unfold lift
  cases m t.hart <;> exact h

instance (m : M W α) : Respects (NoLater (Before s)) (lift m) := by
  constructor
  intro t e h
  unfold lift
  cases m t.hart <;> exact h

/-- A call that neither moves the clock beyond what is under way nor begins anything. -/
theorem keeps_charge {c : Call} (hc : c.Legal) (hlatency : c.latency = 0) :
    Respects (NoLater (Within s)) (charge fun p => p.call c : PM W Unit) := by
  constructor
  intro t e h
  cases hp : t.pipeline.call c with
  | some p =>
    have hdelay := hc.delay_le_latency
    rw [charge_of_some hp]
    exact (h.call hc hp).mono (by omega) (by omega)
  | none =>
    rw [charge_of_none hp]
    exact h

/-- A call that leaves room for a tick. -/
theorem takes_charge {c : Call} (hc : c.Legal) {n : ℕ} (hdelay : c.delay ≤ n)
    (hlatency : c.latency ≤ n + 1) :
    Takes (Within s) (Before s) n (charge fun p => p.call c : PM W Unit) where
  later t e h := by
    cases hp : t.pipeline.call c with
    | some p =>
      rw [charge_of_some hp]
      exact (h.call hc hp).mono (by omega) (by omega)
    | none =>
      rw [charge_of_none hp]
      exact Deadline.later h n

instance (r : RegIdx) : Respects (NoLater (Within s)) (accessRegister r : PM W Unit) :=
  keeps_charge (c := .accessRegister r.toNat) trivial rfl

instance (range : Range) : Respects (NoLater (Within s))
    (charge fun p => some (p.reserveStore range 1) : PM W Unit) :=
  keeps_charge (c := .reserveStore range 1) (Call.legal_reserveStore range) rfl

instance (r : ℕ) (a b : Word) :
    Takes (Within s) (Before s) 17 (charge fun p => p.doMult r a b : PM W Unit) :=
  takes_charge (c := .doMult r a b) trivial (Nat.zero_le 17) (le_refl 18)

instance (r : ℕ) (a b : Word) :
    Takes (Within s) (Before s) 33 (charge fun p => p.doDiv r a b : PM W Unit) :=
  takes_charge (c := .doDiv r a b) trivial (Nat.zero_le 33) (le_refl 34)

instance (r : ℕ) : Takes (Within s) (Before s) 4 (charge fun p => p.doCsr r : PM W Unit) :=
  takes_charge (c := .doCsr r) trivial (Nat.zero_le 4) (le_refl 5)

/-- A load of less than a word waits for one cycle more. -/
theorem takes_load (addr size : Word) (r : ℕ) {n : ℕ} (hn : (if size < 4 then 3 else 2) ≤ n) :
    Takes (Within s) (Before s) n
      (charge fun p => p.doLoad ⟨addr, addr + size⟩ r 2 : PM W Unit) := by
  have hsize : (⟨addr, addr + size⟩ : Range).size = size := by
    show addr + size - addr = size
    bv_omega
  refine takes_charge (c := .doLoad ⟨addr, addr + size⟩ r 2) (Call.legal_doLoad _ r) ?_ ?_
  · show 1 ≤ n
    split_ifs at hn <;> omega
  · show ((2 : ℤ) + 1 + if (⟨addr, addr + size⟩ : Range).size < 4 then 1 else 0).toNat ≤ n + 1
    rw [hsize]
    split_ifs at hn ⊢ <;> omega

instance (r : RegIdx) : Respects (NoLater (Within s)) (read r : PM W Word) := by
  unfold read
  infer_instance

instance (r : RegIdx) : Respects (NoLater (Within s)) (uRead r : PM W Word) := by
  unfold uRead
  infer_instance

instance (r : RegIdx) : Respects (NoLater (Within s)) (shamt r : PM W ℕ) := by
  unfold shamt
  infer_instance

instance (r : RegIdx) (v : Word) : Respects (NoLater (Within s)) (write r v : PM W Unit) := by
  unfold write
  infer_instance

end Parts

/-! ### Instructions -/

section Instructions

variable {s : ℤ} {env : Env W} (i : Instruction)

instance (f : Word → Word → Word) : Respects (NoLater (Within s)) (opPipeline i f : PM W Unit) := by
  unfold opPipeline
  infer_instance

instance (f : Word → Word → Word) :
    Respects (NoLater (Within s)) (opImmPipeline i f : PM W Unit) := by
  unfold opImmPipeline
  infer_instance

instance (f : Word → Word → Word) :
    Respects (NoLater (Within s)) (uOpImmPipeline i f : PM W Unit) := by
  unfold uOpImmPipeline
  infer_instance

instance (f : Word → Word → Word) :
    Respects (NoLater (Within s)) (uOpPipeline i f : PM W Unit) := by
  unfold uOpPipeline
  infer_instance

instance (f : Word → ℕ → Word) :
    Respects (NoLater (Within s)) (shiftPipeline i f : PM W Unit) := by
  unfold shiftPipeline
  infer_instance

instance (f : Word → ℕ → Word) :
    Respects (NoLater (Within s)) (uShiftPipeline i f : PM W Unit) := by
  unfold uShiftPipeline
  infer_instance

instance (f : Word → ℕ → Word) :
    Respects (NoLater (Within s)) (shiftImmPipeline i f : PM W Unit) := by
  unfold shiftImmPipeline
  infer_instance

instance (f : Word → ℕ → Word) :
    Respects (NoLater (Within s)) (uShiftImmPipeline i f : PM W Unit) := by
  unfold uShiftImmPipeline
  infer_instance

instance : Respects (NoLater (Within s)) (jalPipeline env i) := by
  unfold jalPipeline
  infer_instance

instance : Respects (NoLater (Within s)) (jalrPipeline env i) := by
  unfold jalrPipeline
  infer_instance

instance (size : ℕ) (check : Word → M W Unit) (f : Word → Word → Access W Unit) :
    Respects (NoLater (Within s)) (storePipeline i size check f) := by
  unfold storePipeline
  infer_instance

instance (c : Word → Word → Bool) : Respects (NoLater (Within s)) (branchPipeline env i c) := by
  unfold branchPipeline
  infer_instance

instance (c : Word → Word → Bool) : Respects (NoLater (Within s)) (uBranchPipeline env i c) := by
  unfold uBranchPipeline
  infer_instance

instance : Respects (NoLater (Within s)) (scWPipeline env i) := by
  unfold scWPipeline
  infer_instance

theorem takes_loadPipeline (size : ℕ) (check : Word → M W Unit) (f : Word → Access W Word) {n : ℕ}
    (hn : (if BitVec.ofNat 32 size < 4 then 3 else 2) ≤ n) :
    Takes (Within s) (Before s) n (loadPipeline i size check f) := by
  have hload (addr : Word) := takes_load (W := W) (s := s) addr (BitVec.ofNat 32 size) i.rd.toNat hn
  unfold loadPipeline
  infer_instance

instance (f : Word → Word → Word) :
    Takes (Within s) (Before s) 17 (mulPipeline i f : PM W Unit) := by
  unfold mulPipeline
  infer_instance

instance : Takes (Within s) (Before s) 17 (mulhsuPipeline i : PM W Unit) := by
  unfold mulhsuPipeline
  infer_instance

instance (f : Word → Word → Word) :
    Takes (Within s) (Before s) 33 (divPipeline i f : PM W Unit) := by
  unfold divPipeline
  infer_instance

instance (value : PM W Word) [Respects (NoLater (Within s)) value] :
    Takes (Within s) (Before s) 4 (csrWritePipeline env i value) := by
  unfold csrWritePipeline csrToRdPipeline csrValuePipeline
  infer_instance

instance (checked w : Bool) (value : PM W Word) [Respects (NoLater (Within s)) value]
    (f : Word → Word → Word) :
    Takes (Within s) (Before s) 4 (csrChangePipeline env i checked w value f) := by
  unfold csrChangePipeline setRdPipeline csrValuePipeline
  infer_instance

instance : Takes (Within s) (Before s) 2 (lrWPipeline env i) := by
  have hload (addr : Word) : Takes (Within s) (Before s) 2
      (charge fun p => p.doLoad ⟨addr, addr + 4⟩ i.rd.toNat 2 : PM W Unit) :=
    takes_load addr 4 i.rd.toNat (le_refl 2)
  unfold lrWPipeline
  infer_instance

/-- The coprocessor reports a byte of cycles; the last of them is the tick. -/
instance (op : Op) : Takes (Within s) (Before s) 254 (advanceNice op : PM W Unit) := by
  have hadvance (t : TimedHart W) : Takes (Within s) (Before s) 254
      (charge fun p => p.advance ((niceUart t.hart op).cycles.toNat - 1) : PM W Unit) := by
    have hbyte := (niceUart t.hart op).cycles.isLt
    by_cases hpos : (0 : ℤ) < (niceUart t.hart op).cycles.toNat - 1
    · refine takes_charge (c := .advance _) hpos ?_ ?_ <;> show Int.toNat _ ≤ _ <;> omega
    · constructor
      intro t e h
      rw [charge_of_none (Pipeline.advance_of_nonpos _ (not_lt.1 hpos))]
      exact Deadline.later h 254
  unfold advanceNice
  infer_instance

instance : Takes (Within s) (Before s) 254 (custom3Pipeline env i) := by
  unfold custom3Pipeline
  split
  · exact Takes.of_keeps.mono (Nat.zero_le 254)
  · exact Takes.of_keeps.mono (Nat.zero_le 254)
  · infer_instance
  · infer_instance
  · infer_instance
  · infer_instance
  · exact Takes.of_keeps.mono (Nat.zero_le 254)

variable {amo : ℕ} (hamo : env.AmoTakes amo)

include hamo

theorem takes_executeAmo (f : Word → Word → Word) :
    Takes (Within s) (Before s) amo (executeAmoPipeline env i f) := by
  have hcharge : Takes (Within s) (Before s) amo
      (charge fun p => some (env.amoCharge i p) : PM W Unit) := by
    constructor
    intro t e h
    obtain ⟨calls, hlegal, hsum, hrun⟩ := hamo i t.pipeline
    exact (h.run hlegal hrun).mono (by omega) (by omega)
  unfold executeAmoPipeline
  infer_instance

/-- An instruction puts the deadline off by its cycles. -/
theorem takes_execPipeline (op : Opcode) :
    Takes (Within s) (Before s) (op.latency amo) (execPipeline env i op) := by
  have hkeep {m : PM W Unit} (hm : Respects (NoLater (Within s)) m) (n : ℕ) :
      Takes (Within s) (Before s) n m := Takes.of_keeps.mono (Nat.zero_le n)
  unfold execPipeline
  split <;> first
    | exact hkeep inferInstance _
    | exact takes_loadPipeline i _ _ _ (le_refl _)
    | infer_instance
    | unfold luiPipeline; exact hkeep inferInstance _
    | unfold auipcPipeline; exact hkeep inferInstance _
    | skip
  cases hop : amoOperation _ with
  | some f =>
    rw [Opcode.latency_of_amo hop]
    exact takes_executeAmo i hamo f
  | none => exact hkeep inferInstance _

end Instructions

/-! ### Steps -/

section Steps

variable {s e : ℤ} {env : Env W} {t t' : TimedHart W} {amo : ℕ}

theorem before_execStep (hamo : env.AmoTakes amo) (h : Within s t e) :
    Before s (final (execStep env .pipeline { t with hart := startInstr t.hart }))
      (e + 1 + (fetched env t.hart).latency amo) := by
  rw [execStep_eq, fetched]
  cases hf : fetch env (startInstr t.hart) with
  | error x h' =>
    have hsame : Within s { t with hart := h' } e := h
    exact Deadline.later hsame _
  | ok _ h' => exact (takes_execPipeline h'.instr hamo h'.op).later { t with hart := h' } e h

/-- Traps and interrupts leave the timing model alone. -/
theorem before_takeStep (hamo : env.AmoTakes amo) (h : Within s t e)
    (htake : takeStep env .pipeline { t with hart := startInstr t.hart } = .ok () t') :
    Before s t' (e + 1 + (fetched env t.hart).latency amo) := by
  have hstep := before_execStep hamo h
  rcases takeStep_cases htake with ⟨t₁, h₁, hexec, -, rfl⟩ | ⟨t₁, x, h₁, h₂, hexec, -, -, rfl⟩ |
    ⟨t₁, x, h₁, hexec, -, rfl⟩ <;>
  · rw [hexec] at hstep
    exact hstep

/-- The tick. -/
theorem within_afterInstr (h : Before s t e) (hafter : afterInstr env .pipeline t = .ok () t') :
    Within (s + 1) t' e := by
  obtain ⟨_, t₁, hfinish, hafter⟩ := bind_eq_ok.1 hafter
  obtain ⟨h₁, -, rfl⟩ := lift_ok hfinish
  obtain ⟨_, t₂, hget, hupdate⟩ := bind_eq_ok.1 hafter
  cases hget
  obtain ⟨_, t₃, hcount, hcharge⟩ := bind_eq_ok.1 hupdate
  obtain ⟨h₃, -, rfl⟩ := lift_ok hcount
  obtain ⟨_, t₄, hadvance, hquantum⟩ := bind_eq_ok.1 hcharge
  obtain ⟨h₅, -, rfl⟩ := lift_ok hquantum
  cases hp : t.pipeline.advance 1 with
  | none =>
    rw [charge_of_none hp] at hadvance
    cases hadvance
  | some p =>
    rw [charge_of_some hp] at hadvance
    cases hadvance
    exact Pipeline.Within.advance h hp

theorem within_runStep (hamo : env.AmoTakes amo) (h : Within s t e)
    (hbreak : atBreakpoint t.hart = false) (hr : runStep env .pipeline t = .ok () t') :
    Within (s + 1) t' (e + 1 + (fetched env t.hart).latency amo) := by
  rcases runStep_ok hr with ⟨hat, -⟩ | ⟨-, t₁, htake, hafter⟩
  · rw [hbreak] at hat
    cases hat
  · exact within_afterInstr (before_takeStep hamo h htake) hafter

end Steps

/-! ### Main result -/

/-- The cycles of instructions each of which is waited for at once. -/
def allCycles (amo : ℕ) (ops : List Opcode) : ℕ := (ops.map fun op => 1 + op.latency amo).sum

section Runs

variable {env : Env W} {amo : ℕ} {h : Hart W} {cycles : BitVec 64} {ops : List Opcode}
  {t : TimedHart W}

theorem RunOf.within (hamo : env.AmoTakes amo) (hrun : RunOf env ⟨h, .empty cycles⟩ ops t) :
    Within (cycles.toInt + ops.length) t (cycles.toInt + allCycles amo ops) := by
  induction hrun with
  | refl => simpa [Within, allCycles] using Pipeline.within_empty cycles
  | tail _ hbreak hr ih =>
    have hstep := within_runStep hamo ih hbreak hr
    simpa [allCycles, add_assoc] using hstep

/-- A run from an empty pipeline takes at least a cycle for each instruction, and at most as many as
if each were waited for at once; what is still under way at its end is over by then, too. -/
theorem executes_within (hamo : env.AmoTakes amo) (hrun : RunOf env ⟨h, .empty cycles⟩ ops t) :
    ∃ n : ℕ, t.pipeline.numTotalCycles = cycles + BitVec.ofNat 64 n ∧ ops.length ≤ n ∧
      n ≤ allCycles amo ops ∧ t.pipeline.OverIn (allCycles amo ops - n) := by
  obtain ⟨b, hsim, hlower, hupper, hready⟩ := hrun.within hamo
  obtain ⟨n, hn⟩ : ∃ n : ℕ, b.now = cycles.toInt + n :=
    ⟨(b.now - cycles.toInt).toNat, by omega⟩
  refine ⟨n, ?_, by omega, by omega, hsim.overIn hready (by omega)⟩
  rw [hsim.cycles, hn, BitVec.ofInt_add, BitVec.ofInt_toInt, BitVec.ofInt_natCast]

end Runs

/-- A program that reads `mstatus` and uses what it has read. -/
def readThenAdd : TimedHart BareMemory where
  hart := .reset machineMode 0x00140100 0 fun pc => if pc = 0 then 0x300062F3 else 0x00128313
  pipeline := .empty 0

theorem executes_within_readThenAdd : ∃ t n, RunOf Env.bare readThenAdd [.csrrsi, .addi] t ∧
    t.pipeline.numTotalCycles = 0 + BitVec.ofNat 64 n ∧ 2 ≤ n ∧ n ≤ 6 ∧
      t.pipeline.OverIn (6 - n) := by
  have hamo : Env.bare.AmoTakes 0 := fun _ _ => ⟨[], by simp, le_refl 0, rfl⟩
  obtain ⟨t₁, ht₁⟩ : ∃ t₁, runStep Env.bare .pipeline readThenAdd = .ok () t₁ := ⟨_, rfl⟩
  obtain ⟨t₂, ht₂⟩ : ∃ t₂, runStep Env.bare .pipeline t₁ = .ok () t₂ := by
    cases ht₁
    exact ⟨_, rfl⟩
  have hread : RunOf Env.bare readThenAdd [.csrrsi] t₁ := .tail .refl rfl ht₁
  have hrun : RunOf Env.bare readThenAdd [.csrrsi, .addi] t₂ := by
    cases ht₁
    exact .tail hread rfl ht₂
  obtain ⟨n, hcycles, hlower, hupper, hover⟩ := executes_within hamo hrun
  exact ⟨t₂, n, hrun, hcycles, hlower, hupper, hover⟩

end Vcil.Iss
