import Vcil.Iss.BuildsAgree
import Vcil.Iss.Reachable
import Vcil.Iss.BareMetal

/-!
# Where the builds of `exec_step` differ

`PIPELINE_TIMING` changes the result of three kinds of instructions: `CSRRSI` and `CSRRCI` with a
zero immediate on a read-only register, which only the pipelined text takes for writes; `LR.W`
inside an open LR/SC window, which it lets start again; and the coprocessor instructions, after
which an assertion fails when fewer than two cycles are reported.

* `Diverges`: these instructions;
* `csrChange_agree_iff`, `lrW_agree_iff`, `custom3_agree_iff`: each of them;
* `buildsAgree_iff`: on every other instruction the builds agree.
-/

namespace Vcil.Iss

open Fallible
open Host (NiceUart)
open Timing (Pipeline)

variable {W : Type} (env : Env W) (i : Instruction)

/-! ### Agreement -/

def SameHart (h : Hart W) (t : TimedHart W) : Prop := t.hart = h

/-- Both texts return, or both raise the same, and leave the same hart. -/
abbrev SameEffect (r₁ : EStateM.Result Raise (Hart W) Unit)
    (r₂ : EStateM.Result Raise (TimedHart W) Unit) : Prop :=
  Agree SameHart (fun _ => SameHart) r₁ r₂

/-- The builds have the same effect from a state. -/
def BuildsAgree (t : TimedHart W) : Prop :=
  SameEffect (execStepPlain env t.hart) (execStepPipeline env t)

/-- Lockstep implies agreement. -/
theorem sameEffect_of_same {r₁ : EStateM.Result Raise (Hart W) Unit}
    {r₂ : EStateM.Result Raise (TimedHart W) Unit}
    (h : Agree (At Pipeline.Valid) (fun _ => At Pipeline.Valid) r₁ r₂) : SameEffect r₁ r₂ :=
  h.weaken (fun _ _ hP => hP.1) fun _ _ _ hP => hP.1

/-- A register that the current mode may read and that is there. -/
def CsrReads (h : Hart W) (addr : CsrAddr) : Prop :=
  invalidCsrAccess h addr false = false ∧ counterWithheld h addr = false ∧
    (csrName env addr = .other → env.isValidCsr32Addr addr = true)

/-- The load of `LR.W` raises nothing. -/
def LoadReserves (h : Hart W) (i : Instruction) : Prop :=
  hasExt h.csrs.misa .a = true ∧ env.trapCheckAddrAlignment 4 true (h.regs i.rs1) = none ∧
    ∃ v, (env.atomicLoadReservedWord (h.regs i.rs1) h.memView h.world).1 = .ok v

/-- The second operand of a coprocessor call. -/
def secondOperand (h : Hart W) (i : Instruction) : Op → Word
  | .sm3p0 | .sm3p1 => 0
  | .sm4ks | .sm4ed => h.regs i.rs2

/-- The cycle count in the driver after a call that returns. -/
def reportedCycles (h : Hart W) (op : Op) (x y : Word) : Option Byte :=
  if usesUart env op then
    let r := env.serial (NiceUart.requestFor op x y) h.world
    ((niceUart h op).call op x y r.1).map fun p => p.1.2.cycles
  else some (niceUart h op).cycles

/-- The coprocessor answers and reports fewer than two cycles. -/
def ReportsTooFew (h : Hart W) (i : Instruction) (op : Op) : Prop :=
  ∃ c, reportedCycles env h op (h.regs i.rs1) (secondOperand h i op) = some c ∧ c.toNat < 2

/-- The decoded instruction of `h` is one on which the builds differ. -/
def Diverges (h : Hart W) : Prop :=
  match h.op with
  | .csrrsi | .csrrci =>
      h.instr.zimm = 0 ∧ csrReadonly h.instr.csr = true ∧ CsrReads env h h.instr.csr
  | .lrW => LoadReserves env h h.instr ∧ h.lrScCounter ≠ 0 ∧ h.lrScCounter ≠ 17
  | .custom3 => env.nice.niceCore = true ∧
      ∃ op, custom3Case env h.instr = some (.nice op) ∧ ReportsTooFew env h h.instr op
  | _ => False

/-- The decoded instruction of `h` reads `mcycle` or `mcycleh`. -/
def ReadsCycle (h : Hart W) : Prop :=
  match h.op with
  | .csrrw | .csrrwi => h.instr.rd ≠ 0 ∧ IsCycle env h.instr.csr
  | .csrrs | .csrrc | .csrrsi | .csrrci => IsCycle env h.instr.csr
  | _ => False

/-! ### Read-only registers -/

section Csr

variable {addr : CsrAddr}

theorem csrName_readonly (h : csrReadonly addr = true) :
    csrName env addr = .time ∨ csrName env addr = .timeh ∨ csrName env addr = .hpmcounter ∨
      csrName env addr = .other := by
  have htable : ∀ p ∈ csrTable, csrReadonly p.1 = true → p.2 = .time ∨ p.2 = .timeh := by decide
  unfold csrName
  cases hl : csrTable.lookup addr with
  | some name =>
    obtain ⟨l₁, l₂, hmem, -⟩ := List.lookup_eq_some_iff.1 hl
    show name = .time ∨ name = .timeh ∨ _
    rcases htable (addr, name) (by rw [hmem]; simp) h with h | h
    · exact .inl h
    · exact .inr (.inl h)
  | none =>
    cases env.isHpmcounter addr <;> simp

theorem isFcsr_readonly (h : csrReadonly addr = true) : isFcsr addr = false := by
  by_contra hf
  simp only [isFcsr, Bool.not_eq_false, Bool.or_eq_true, decide_eq_true_eq] at hf
  rcases hf with (rfl | rfl) | rfl <;> revert h <;> decide

theorem isInvalidCsrAccess_of_readonly (h : csrReadonly addr = true) (w : Bool) (hart : Hart W) :
    isInvalidCsrAccess addr w hart = .ok (invalidCsrAccess hart addr w) hart := by
  unfold isInvalidCsrAccess
  rw [illegalIf_bind, isFcsr_readonly h]
  rfl

theorem isInvalidCsrAccess_of_not_readonly (h : csrReadonly addr = false) :
    (isInvalidCsrAccess addr true : M W Bool) = isInvalidCsrAccess addr false := by
  have hsame : (fun hart : Hart W => invalidCsrAccess hart addr true) =
      fun hart => invalidCsrAccess hart addr false := by
    funext hart
    simp [invalidCsrAccess, h]
  unfold isInvalidCsrAccess
  simp only [funext_iff] at hsame
  simp only [hsame]

/-- Reading a read-only register, which returns or raises an illegal-instruction trap. -/
theorem getCsrValue_readonly (hro : csrReadonly addr = true) (c : M W (BitVec 64)) (h : Hart W) :
    (counterWithheld h addr = false ∧
        (csrName env addr = .other → env.isValidCsr32Addr addr = true) →
      ∃ v h', getCsrValue env c addr h = .ok v h') ∧
    (¬(counterWithheld h addr = false ∧
        (csrName env addr = .other → env.isValidCsr32Addr addr = true)) →
      getCsrValue env c addr h = .error (.trap ⟨excIllegalInstr, h.instr.data.setWidth 64⟩) h) := by
  unfold getCsrValue validateCsrCounterReadAccessRights
  rw [illegalIf_bind]
  cases hwith : counterWithheld h addr with
  | true => simp
  | false =>
    rcases csrName_readonly env hro with hname | hname | hname | hname <;> rw [hname]
    · exact ⟨fun _ => ⟨_, _, rfl⟩, by simp⟩
    · exact ⟨fun _ => ⟨_, _, rfl⟩, by simp⟩
    · exact ⟨fun _ => ⟨_, _, rfl⟩, by simp⟩
    · unfold readDefault
      simp only [illegalIf_bind]
      cases env.isValidCsr32Addr addr with
      | true => exact ⟨fun _ => ⟨_, _, rfl⟩, by simp⟩
      | false => exact ⟨by simp, fun _ => rfl⟩

theorem setRdPlain_ok (v : Word) (h : Hart W) : ∃ h', setRdPlain i v h = .ok () h' := by
  unfold setRdPlain
  by_cases hrd : i.rd ≠ 0
  · rw [if_pos hrd]
    exact ⟨_, rfl⟩
  · rw [if_neg hrd]
    exact ⟨_, rfl⟩

/-- The plain text of `CSRRSI` and `CSRRCI` with a zero immediate on a read-only register. -/
theorem csrChangePlain_readonly (hro : csrReadonly i.csr = true) (value : Word)
    (f : Word → Word → Word) (h : Hart W) :
    (CsrReads env h i.csr → ∃ h', csrChangePlain env i false (pure value) f h = .ok () h') ∧
    (¬CsrReads env h i.csr → csrChangePlain env i false (pure value) f h =
      .error (.trap ⟨excIllegalInstr, h.instr.data.setWidth 64⟩) h) := by
  obtain ⟨hok, herr⟩ := getCsrValue_readonly env hro computeAndGetCurrentCycles h
  have hcheck := isInvalidCsrAccess_of_readonly hro false h
  unfold CsrReads
  cases hinv : invalidCsrAccess h i.csr false with
  | true =>
    rw [hinv] at hcheck
    exact ⟨fun hreads => by simp at hreads, fun _ => bind_of_ok hcheck⟩
  | false =>
    rw [hinv] at hcheck
    simp only [true_and]
    constructor
    · intro hreads
      obtain ⟨v, h', hget⟩ := hok hreads
      obtain ⟨h'', hset⟩ := setRdPlain_ok i v h'
      refine ⟨h'', bind_eq_ok.2 ⟨_, _, hcheck, bind_eq_ok.2 ⟨_, _, rfl, ?_⟩⟩⟩
      exact bind_eq_ok.2 ⟨_, _, hget, bind_eq_ok.2 ⟨_, _, hset, rfl⟩⟩
    · intro hreads
      exact (bind_of_ok hcheck).trans ((bind_of_ok rfl).trans (bind_of_error (herr hreads)))

theorem csrChangePipeline_readonly (hro : csrReadonly i.csr = true) (w : Bool) (value : PM W Word)
    (f : Word → Word → Word) (t : TimedHart W) :
    csrChangePipeline env i true w value f t =
      .error (.trap ⟨excIllegalInstr, t.hart.instr.data.setWidth 64⟩) t := by
  have hinvalid : invalidCsrAccess t.hart i.csr true = true := by simp [invalidCsrAccess, hro]
  unfold csrChangePipeline
  simp only [bind, EStateM.bind, lift, isInvalidCsrAccess_of_readonly hro, hinvalid]
  rfl

/-- `CSRRSI` and `CSRRCI`: the pipelined text checks for a write in any case. -/
theorem csrChange_agree_iff (hcycle : ¬IsCycle env i.csr) (f : Word → Word → Word)
    (t : TimedHart W) (hvalid : t.pipeline.Valid) :
    SameEffect
        (csrChangePlain env i (i.zimm ≠ 0) (pure (i.zimm.setWidth 32)) f t.hart)
        (csrChangePipeline env i true (i.zimm ≠ 0) (pure (i.zimm.setWidth 32)) f t) ↔
      ¬(i.zimm = 0 ∧ csrReadonly i.csr = true ∧ CsrReads env t.hart i.csr) := by
  have hP : At Pipeline.Valid t.hart t := ⟨rfl, hvalid⟩
  have himm : Same (W := W) (pure (i.zimm.setWidth 32)) (pure (i.zimm.setWidth 32)) :=
    .pure fun _ _ hP => hP
  by_cases hz : i.zimm = 0
  · simp only [hz, ne_eq, not_true_eq_false, decide_false]
    cases hro : csrReadonly i.csr with
    | false =>
      refine iff_of_true ?_ (by simp)
      have hsame := (same_csrChange env i false himm f hcycle) _ _ hP
      rw [hz] at hsame
      unfold csrChangePipeline at hsame ⊢
      rw [isInvalidCsrAccess_of_not_readonly hro]
      exact sameEffect_of_same hsame
    | true =>
      obtain ⟨hok, herr⟩ := csrChangePlain_readonly env i hro ((0 : BitVec 5).setWidth 32) f t.hart
      rw [csrChangePipeline_readonly env i hro]
      by_cases hreads : CsrReads env t.hart i.csr
      · obtain ⟨h', hok⟩ := hok hreads
        rw [hok]
        exact iff_of_false (fun h => h) fun h => h ⟨trivial, rfl, hreads⟩
      · rw [herr hreads]
        exact iff_of_true ⟨rfl, rfl⟩ fun h => hreads h.2.2
  · have hwrite : decide (i.zimm ≠ 0) = true := decide_eq_true hz
    rw [hwrite]
    refine iff_of_true ?_ fun h => hz h.1
    exact sameEffect_of_same ((same_csrChange env i true himm f hcycle) _ _ hP)

end Csr

/-! ### Load-reserved -/

section LoadReserved

theorem lrWPlain_ok (h : Hart W) :
    (∃ h', lrWPlain env i h = .ok () h') ↔ LoadReserves env h i := by
  unfold lrWPlain LoadReserves trapCheckAddrAlignment
  simp only [bind_eq_ok, requireIsa_eq_ok, reg_eq_ok, raiseIfSome_eq_ok, access_eq_ok]
  constructor
  · rintro ⟨h', _, _, ⟨ha, rfl⟩, _, _, ⟨rfl, rfl⟩, _, _, ⟨halign, rfl⟩, v, _, ⟨w, hload, -⟩, -⟩
    exact ⟨ha, halign, v, by rw [hload]⟩
  · rintro ⟨ha, halign, v, hload⟩
    have htail (s : Hart W) : ∃ h',
        (if s.lrScCounter = 0 then setLrScCounter 17 else pure () : M W Unit) s = .ok () h' := by
      split <;> exact ⟨_, rfl⟩
    obtain ⟨h', htail⟩ := htail { h.setWorld
      (env.atomicLoadReservedWord (h.regs i.rs1) h.memView h.world).2 with
      regs := Function.update h.regs i.rd v }
    exact ⟨h', (), h, ⟨ha, rfl⟩, _, h, ⟨rfl, rfl⟩, (), h, ⟨halign, rfl⟩, v, _,
      ⟨_, Prod.ext hload rfl, rfl⟩, (), _, rfl, _, _, rfl, htail⟩

/-- The texts in lockstep, up to the counter, which only the pipelined text always sets. -/
theorem lockstep_lrW (c : ℤ) :
    Lockstep (At Pipeline.Valid) (fun h t => At Pipeline.Valid h t ∧ h.lrScCounter = c)
      (lrWPlain env i) (lrWPipeline env i) fun _ h t =>
        At Pipeline.Valid { h with lrScCounter := 17 } t ∧
          h.lrScCounter = if c = 0 then 17 else c := by
  have keeps {α : Type} {P : Hart W → TimedHart W → Prop} {Q : α → Hart W → TimedHart W → Prop}
      {m : M W α} {m' : PM W α} (hm : Lockstep (At Pipeline.Valid) P m m' Q)
      [hr : Respects (Unchanged Hart.lrScCounter) m] :
      Lockstep (At Pipeline.Valid) (fun h t => P h t ∧ h.lrScCounter = c) m m'
        fun a h t => Q a h t ∧ h.lrScCounter = c :=
    hm.keeping fun h hc => (hr.rel h).trans hc
  unfold lrWPlain lrWPipeline
  refine (keeps (same_lift _)).bind fun _ => (keeps (same_read i.rs1)).bind fun addr => ?_
  refine (keeps (same_lift _)).bind fun _ => (keeps (same_lift _)).bind fun v => ?_
  refine (keeps (lockstep_write i.rd v)).bind fun _ => ?_
  rintro h t ⟨⟨rfl, hready⟩, rfl⟩
  obtain ⟨p', hp', hvalid'⟩ := doLoad_ok i ⟨addr, addr + 4⟩ t.pipeline hready
  have hplain : (do
      let h ← get
      if h.lrScCounter = 0 then setLrScCounter 17 else pure () : M W Unit) t.hart =
        .ok () { t.hart with
          lrScCounter := if t.hart.lrScCounter = 0 then 17 else t.hart.lrScCounter } := by
    show (if t.hart.lrScCounter = 0 then setLrScCounter 17 else pure () : M W Unit) t.hart = _
    split <;> rfl
  have hpipeline : (do
      lift (setLrScCounter 17)
      charge fun p => p.doLoad ⟨addr, addr + 4⟩ i.rd.toNat 2 : PM W Unit) t =
        .ok () ⟨{ t.hart with lrScCounter := 17 }, p'⟩ := by
    refine bind_eq_ok.2 ⟨(), { t with hart := { t.hart with lrScCounter := 17 } }, ?_, ?_⟩
    · exact lift_of_ok rfl
    · exact charge_of_some hp'
  rw [hplain, hpipeline]
  exact ⟨rfl, ⟨rfl, hvalid'⟩, rfl⟩

/-- `LR.W`: the plain text starts no second window inside an open one. -/
theorem lrW_agree_iff (t : TimedHart W) (hvalid : t.pipeline.Valid) :
    SameEffect (lrWPlain env i t.hart) (lrWPipeline env i t) ↔
      ¬(LoadReserves env t.hart i ∧ t.hart.lrScCounter ≠ 0 ∧ t.hart.lrScCounter ≠ 17) := by
  have hlock := lockstep_lrW env i t.hart.lrScCounter t.hart t ⟨⟨rfl, hvalid⟩, rfl⟩
  rw [← lrWPlain_ok]
  cases h₁ : lrWPlain env i t.hart <;> cases h₂ : lrWPipeline env i t <;> rw [h₁, h₂] at hlock
  case ok.ok h' _ t' =>
    obtain ⟨-, ⟨ht', -⟩, hcounter⟩ := hlock
    have hsame : t'.hart = h' ↔ h'.lrScCounter = 17 := by
      rw [ht']
      constructor
      · intro heq
        rw [← heq]
      · intro h17
        rw [← h17]
    have hwindow : h'.lrScCounter = 17 ↔ t.hart.lrScCounter = 0 ∨ t.hart.lrScCounter = 17 := by
      rw [hcounter]
      split <;> simp_all
    show (() = () ∧ t'.hart = h') ↔ _
    rw [hsame, hwindow]
    constructor
    · rintro ⟨-, hc | hc⟩ ⟨-, h0, h17⟩
      · exact h0 hc
      · exact h17 hc
    · intro hc
      refine ⟨rfl, ?_⟩
      by_contra hopen
      rw [not_or] at hopen
      exact hc ⟨⟨h', rfl⟩, hopen.1, hopen.2⟩
  case ok.error => exact hlock.elim
  case error.ok => exact hlock.elim
  case error.error =>
    exact iff_of_true ⟨hlock.1, hlock.2.1⟩ fun h => by simp at h

end LoadReserved

/-! ### The coprocessor -/

section Coprocessor

variable {env i}

theorem read_ok (r : RegIdx) {t : TimedHart W} (hvalid : t.pipeline.Valid) :
    ∃ p : Pipeline, p.Valid ∧ read r t = .ok (t.hart.regs r) { t with pipeline := p } := by
  obtain ⟨p, hp, hready⟩ := hvalid.accessRegister r.toNat
  exact ⟨p, hready.valid, (bind_of_ok (charge_of_some hp)).trans (lift_of_ok rfl)⟩

theorem write_ok (r : RegIdx) (v : Word) {t : TimedHart W} (hvalid : t.pipeline.Valid) :
    ∃ p : Pipeline, p.Valid ∧ write r v t =
      .ok () ⟨{ t.hart with regs := Function.update t.hart.regs r v }, p⟩ := by
  obtain ⟨p, hp, hready⟩ := hvalid.accessRegister r.toNat
  exact ⟨p, hready.valid, (bind_of_ok (charge_of_some hp)).trans (lift_of_ok rfl)⟩

/-- The advance of the clock is an assertion about the reported cycles. -/
theorem advanceNice_ok (op : Op) {t : TimedHart W} (hvalid : t.pipeline.Valid) :
    (2 ≤ (niceUart t.hart op).cycles.toNat →
      ∃ p : Pipeline, p.Valid ∧ advanceNice op t = .ok () { t with pipeline := p }) ∧
    ((niceUart t.hart op).cycles.toNat < 2 → advanceNice op t = .error .assertion t) := by
  have hcharge : advanceNice op t =
      charge (fun p => p.advance ((niceUart t.hart op).cycles.toNat - 1)) t := rfl
  rw [hcharge]
  constructor
  · intro hcycles
    obtain ⟨p, hp, hp'⟩ := hvalid.advance
      (show (0 : ℤ) < (niceUart t.hart op).cycles.toNat - 1 by omega)
    exact ⟨p, hp', charge_of_some hp⟩
  · intro hcycles
    exact charge_of_none (Pipeline.advance_of_nonpos t.pipeline (by omega))

theorem niceUart_setReg (h : Hart W) (regs : RegIdx → Word) (op : Op) :
    niceUart { h with regs := regs } op = niceUart h op := by cases op <;> rfl

theorem niceUart_setNiceUart (h : Hart W) (u : NiceUart) (op : Op) :
    niceUart (setNiceUart h u op) op = u := by cases op <;> rfl

/-- A call that returns leaves the reported cycles in the driver, one that blocks reports none. -/
theorem reportedCycles_eq (op : Op) (x y : Word) (h : Hart W) :
    reportedCycles env h op x y = match niceCall env op x y h with
      | .ok _ h' => some (niceUart h' op).cycles
      | .error _ _ => none := by
  unfold reportedCycles niceCall
  by_cases huart : usesUart env op
  · simp only [if_pos huart]
    cases (niceUart h op).call op x y (env.serial (NiceUart.requestFor op x y) h.world).1 with
    | none => rfl
    | some p =>
      simp only [Option.map_some, niceUart_setNiceUart]
  · simp only [if_neg huart]

theorem reportedCycles_of_ok {op : Op} {x y v : Word} {h h' : Hart W}
    (hcall : niceCall env op x y h = .ok v h') :
    reportedCycles env h op x y = some (niceUart h' op).cycles := by
  rw [reportedCycles_eq, hcall]

theorem reportedCycles_of_error {op : Op} {x y : Word} {e : Raise} {h h' : Hart W}
    (hcall : niceCall env op x y h = .error e h') : reportedCycles env h op x y = none := by
  rw [reportedCycles_eq, hcall]

variable (env i) in
/-- The coprocessor call, the write of its result and the cycles it took. -/
theorem niceCall_agree_iff (op : Op) (x y : Word) {t : TimedHart W} (hvalid : t.pipeline.Valid) :
    SameEffect ((niceCall env op x y >>= setReg i.rd) t.hart)
        ((do
          write i.rd (← lift (niceCall env op x y))
          advanceNice op : PM W Unit) t) ↔
      ¬∃ c, reportedCycles env t.hart op x y = some c ∧ c.toNat < 2 := by
  cases hcall : niceCall env op x y t.hart with
  | error e h' =>
    rw [bind_of_error hcall, bind_of_error (lift_of_error hcall), reportedCycles_of_error hcall]
    exact iff_of_true ⟨rfl, rfl⟩ (by simp)
  | ok v h' =>
    obtain ⟨p, hp, hwrite⟩ := write_ok i.rd v (t := { t with hart := h' }) hvalid
    rw [bind_of_ok hcall, bind_of_ok (lift_of_ok hcall), bind_of_ok hwrite,
      reportedCycles_of_ok hcall]
    obtain ⟨hok, herr⟩ := advanceNice_ok op
      (t := ⟨{ h' with regs := Function.update h'.regs i.rd v }, p⟩) hp
    rw [niceUart_setReg] at hok herr
    by_cases hcycles : (niceUart h' op).cycles.toNat < 2
    · rw [herr hcycles]
      exact iff_of_false (fun h => h) fun h => h ⟨_, rfl, hcycles⟩
    · obtain ⟨p', -, hadvance⟩ := hok (by omega)
      rw [hadvance]
      exact iff_of_true ⟨rfl, rfl⟩ fun ⟨_, heq, hlt⟩ => hcycles (Option.some.inj heq ▸ hlt)

theorem nice_agree_iff {op : Op} (hcase : custom3Case env i = some (.nice op)) {t : TimedHart W}
    (hvalid : t.pipeline.Valid) :
    SameEffect (custom3Plain env i t.hart) (custom3Pipeline env i t) ↔
      ¬ReportsTooFew env t.hart i op := by
  obtain ⟨p, hp, hread⟩ := read_ok i.rs1 hvalid
  obtain ⟨p', hp', hread'⟩ := read_ok i.rs2 (t := { t with pipeline := p }) hp
  have hone := niceCall_agree_iff env i op (t.hart.regs i.rs1) 0
    (t := { t with pipeline := p }) hp
  have htwo := niceCall_agree_iff env i op (t.hart.regs i.rs1) (t.hart.regs i.rs2)
    (t := { t with pipeline := p' }) hp'
  unfold custom3Plain custom3Pipeline
  rw [hcase]
  cases op with
  | sm3p0 | sm3p1 =>
    simp only
    rw [bind_of_ok hread]
    exact hone
  | sm4ks | sm4ed =>
    simp only
    rw [bind_of_ok hread, bind_of_ok hread']
    exact htwo

variable (env i)

theorem custom3_agree_iff (t : TimedHart W) (hvalid : t.pipeline.Valid) :
    SameEffect (custom3Plain env i t.hart) (custom3Pipeline env i t) ↔
      ¬∃ op, custom3Case env i = some (.nice op) ∧ ReportsTooFew env t.hart i op := by
  have hP : At Pipeline.Valid t.hart t := ⟨rfl, hvalid⟩
  cases hcase : custom3Case env i with
  | none =>
    unfold custom3Plain custom3Pipeline
    rw [hcase]
    exact iff_of_true ⟨rfl, rfl⟩ (by simp)
  | some c =>
    cases c with
    | nice op =>
      rw [nice_agree_iff hcase hvalid]
      simp
    | add =>
      unfold custom3Plain custom3Pipeline
      rw [hcase]
      exact iff_of_true (sameEffect_of_same (same_op i _ _ _ hP)) (by simp)
    | software op =>
      unfold custom3Plain custom3Pipeline
      rw [hcase]
      refine iff_of_true (sameEffect_of_same ?_) (by simp)
      exact ((same_read i.rs1).bind fun a => same_write i.rd (op.eval a)) _ _ hP

end Coprocessor

/-! ### Main result -/

section Main

variable {env}

theorem same_amo (hamo : env.AmoValid) (f : Word → Word → Word) :
    Same (executeAmo env i f) (executeAmoPipeline env i f) :=
  (same_lift _).bind_right (charge_ok fun p hp => ⟨_, rfl, hamo i p hp⟩)

/-- The switch: the builds agree unless the instruction is one of those above. -/
theorem exec_agree_iff {t : TimedHart W} (hvalid : t.pipeline.Valid)
    (hamo : env.AmoValid) (hcycle : ¬ReadsCycle env t.hart) :
    SameEffect (execPlain env t.hart.instr t.hart.op t.hart)
        (execPipeline env t.hart.instr t.hart.op t) ↔ ¬Diverges env t.hart := by
  have hP : At Pipeline.Valid t.hart t := ⟨rfl, hvalid⟩
  have agrees {m : M W Unit} {m' : PM W Unit} (h : Same m m') :
      SameEffect (m t.hart) (m' t) ↔ ¬False := iff_of_true (sameEffect_of_same (h _ _ hP)) id
  have himm (v : Word) : Same (W := W) (pure v) (pure v) := .pure fun _ _ hP => hP
  unfold ReadsCycle at hcycle
  unfold Diverges
  generalize t.hart.instr = i at hcycle ⊢
  generalize t.hart.op = op at hcycle ⊢
  unfold execPlain execPipeline
  cases op with
  | addi | slti | sltiu | xori | ori | andi => exact agrees (same_opImm i _)
  | add | sub | slt | sltu | xor | or | and => exact agrees (same_op i _)
  | sll | srl | sra => exact agrees (same_shift i _)
  | slli | srli | srai => exact agrees (same_shiftImm i _)
  | lui => exact agrees (same_write i.rd _)
  | auipc => exact agrees (same_auipc i)
  | jal => exact agrees (same_jal env i)
  | jalr => exact agrees (same_jalr env i)
  | sb | sh | sw => exact agrees (same_store i _ _ _)
  | lb | lh | lw | lbu | lhu => exact agrees (same_load i _ _ _)
  | beq | bne | blt | bge | bltu | bgeu => exact agrees (same_branch env i _)
  | csrrw =>
    exact agrees (same_csrWrite env i (same_read i.rs1) fun hrd hc => hcycle ⟨hrd, hc⟩)
  | csrrwi => exact agrees (same_csrWrite env i (himm _) fun hrd hc => hcycle ⟨hrd, hc⟩)
  | csrrs | csrrc => exact agrees (same_csrChange env i _ (same_read i.rs1) _ hcycle)
  | csrrsi | csrrci => exact csrChange_agree_iff env i hcycle _ t hvalid
  | mul | mulh | mulhu => exact agrees (same_mul i _)
  | mulhsu => exact agrees (same_mulhsu i)
  | div | divu | rem | remu => exact agrees (same_div i _)
  | lrW => exact lrW_agree_iff env i t hvalid
  | scW => exact agrees (same_scW env i)
  | custom3 =>
    by_cases hcore : env.nice.niceCore = true
    · rw [if_pos hcore, if_pos hcore, custom3_agree_iff env i t hvalid]
      simp only [hcore, true_and]
    · rw [if_neg hcore, if_neg hcore]
      exact iff_of_true ((agrees (same_lift _)).2 id) fun h => hcore h.1
  | amoswapW | amoaddW | amoxorW | amoandW | amoorW | amominW | amominuW | amomaxW | amomaxuW =>
    exact agrees (same_amo i hamo _)
  | _ => exact agrees (same_lift _)

/-- The builds agree on every instruction except those of `Diverges`. -/
theorem buildsAgree_iff {t : TimedHart W} (hvalid : t.pipeline.Valid)
    (hamo : env.AmoValid)
    (hcycle : ∀ h, fetch env t.hart = .ok () h → ¬ReadsCycle env h) :
    BuildsAgree env t ↔ ∀ h, fetch env t.hart = .ok () h → ¬Diverges env h := by
  unfold BuildsAgree execStepPlain execStepPipeline
  cases hf : fetch env t.hart with
  | error e h =>
    rw [bind_of_error hf, bind_of_error (lift_of_error hf)]
    exact iff_of_true ⟨rfl, rfl⟩ (by simp)
  | ok u h =>
    have hexec := exec_agree_iff (t := { t with hart := h }) hvalid hamo (hcycle h hf)
    rw [bind_of_ok hf, bind_of_ok (lift_of_ok hf)]
    constructor
    · intro hsame h' heq
      cases heq
      exact hexec.1 hsame
    · intro hno
      exact hexec.2 (hno h rfl)

end Main

/-- A hart in machine mode, with the bases I, A and U, on a memory of one instruction. -/
def onlyInstr (w : Word) : TimedHart BareMemory where
  hart := .reset machineMode 0x00100101 0 fun _ => w
  pipeline := .empty 0

/-- A first `LR.W` opens the same window in both builds. -/
theorem buildsAgree_lrW : BuildsAgree Env.bare (onlyInstr 0x1000A2AF) := by
  refine (buildsAgree_iff (Pipeline.valid_empty 0) (fun _ _ hp => hp) ?_).2 ?_
  · intro h hf
    cases hf
    exact id
  · intro h hf
    cases hf
    exact fun hd => hd.2.1 rfl

/-- `CSRRSI x5, mvendorid, 0` reads a register that is there, but traps in the pipelined build. -/
theorem csrrsi_differs :
    Reachable Env.bare .pipeline (onlyInstr 0xF11062F3) ∧
      (∀ h, fetch Env.bare (onlyInstr 0xF11062F3).hart = .ok () h → ¬ReadsCycle Env.bare h) ∧
      ¬BuildsAgree Env.bare (onlyInstr 0xF11062F3) := by
  refine ⟨.start _ _, fun h hf => ?_, fun h => h⟩
  cases hf
  have hname : csrName Env.bare 0xF11 = .other := rfl
  show ¬(csrName Env.bare 0xF11 = .mcycle ∨ csrName Env.bare 0xF11 = .mcycleh)
  rw [hname]
  simp

end Vcil.Iss
