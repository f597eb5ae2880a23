import Vcil.Iss.CsrInstr
import Vcil.Iss.Divergence

/-!
# The performance counters

`mcycle` and `minstret` should count cycles and instructions unless `mcountinhibit` stops them, and
software should be able to write their halves.

* `Counters`: the two counters; `Counters.next` is what a step should make of them;
* `ReadsAs`: what `get_csr_value` returns are the halves of the counters;
* `KeepsCycle`: the step does not write `mcycle` nor overflow `cycle_counter`, and with
  `PIPELINE_TIMING` does not start while `mcycle` is inhibited;
* `readsAs_of_run`: the counters are right along the runs of such steps.
-/

namespace Vcil.Iss

open Fallible

variable {W : Type}

/-! ### The counters -/

structure Counters where
  mcycle : BitVec 64
  minstret : BitVec 64

namespace Counters

variable (c : Counters)

/-- The half of a counter that a register shows. -/
def half : CsrName → Word
  | .mcycle => low c.mcycle
  | .mcycleh => high c.mcycle
  | .minstret => low c.minstret
  | .minstreth => high c.minstret
  | _ => 0

/-- The counters with one half replaced. -/
def write (v : Word) : CsrName → Counters
  | .mcycle => { c with mcycle := high c.mcycle ++ v }
  | .mcycleh => { c with mcycle := v ++ low c.mcycle }
  | .minstret => { c with minstret := high c.minstret ++ v }
  | .minstreth => { c with minstret := v ++ low c.minstret }
  | _ => c

end Counters

/-- `csrs.mcountinhibit.CY`, `csrs.mcountinhibit.IR`. -/
def cycleInhibited (h : Hart W) : Bool := Mcountinhibit.cy.isSet h.csrs.mcountinhibit
def instretInhibited (h : Hart W) : Bool := Mcountinhibit.ir.isSet h.csrs.mcountinhibit

section Next

variable (env : Env W) (b : Build) (t t' : TimedHart W) (c : Counters)

/-- The counters after the instruction: one that writes a counter replaces half of it. -/
def Counters.written : Counters :=
  match fetch env (startInstr t.hart) with
  | .error _ _ => c
  | .ok _ h => match exec env b h.instr h.op { t with hart := h } with
    | .error _ _ => c
    | .ok _ _ =>
      if WritesCsr h.instr h.op then
        let name := csrName env h.instr.csr
        c.write (csrResult (c.half name) (csrOperand h.instr h h.op) h.op) name
      else c

/-- The cycles that the step from `t` to `t'` counts: those of the table, or those by which the clock
of the pipeline has advanced. -/
def countedCycles : BitVec 64 :=
  match b with
  | .plain =>
    if cycleInhibited t'.hart then 0 else BitVec.ofNat 64 (instrCycles t'.hart.op / cycleTime)
  | .pipeline =>
    if cycleInhibited t.hart then 0 else t'.pipeline.numTotalCycles - t.pipeline.numTotalCycles

/-- What the step from `t` to `t'` should make of the counters. -/
def Counters.next : Counters :=
  if atBreakpoint t.hart then c
  else
    { mcycle := (c.written env b t).mcycle + countedCycles b t t'
      minstret := (c.written env b t).minstret + if instretInhibited t'.hart then 0 else 1 }

/-- The cycle count of a build. -/
def currentCycles : M W (BitVec 64) :=
  match b with
  | .plain => computeAndGetCurrentCycles
  | .pipeline => pure t.pipeline.numTotalCycles

/-- The addresses of `mcycle`, `mcycleh`, `minstret` and `minstreth`. -/
def counterAddrs : List CsrAddr := [0xB00, 0xB80, 0xB02, 0xB82]

/-- Each half of a counter is what `get_csr_value` returns for it. -/
def ReadsAs : Prop :=
  ∀ addr ∈ counterAddrs, ∃ h', getCsrValue env (currentCycles b t) addr t.hart =
    .ok (c.half (csrName env addr)) h'

end Next

/-- `default_write32` stores in `csrs.cycle` and `csrs.instret`, and other registers elsewhere. -/
structure StoresCounters (env : Env W) : Prop where
  cycle : ∀ c addr v, csrName env addr = .mcycle →
    (env.defaultWrite32 c addr v).cycle = high c.cycle ++ v
  cycleh : ∀ c addr v, csrName env addr = .mcycleh →
    (env.defaultWrite32 c addr v).cycle = v ++ low c.cycle
  instret : ∀ c addr v, csrName env addr = .minstret →
    (env.defaultWrite32 c addr v).instret = high c.instret ++ v
  instreth : ∀ c addr v, csrName env addr = .minstreth →
    (env.defaultWrite32 c addr v).instret = v ++ low c.instret
  others : ∀ c addr v, csrName env addr ≠ .minstret → csrName env addr ≠ .minstreth →
    (env.defaultWrite32 c addr v).instret = c.instret

/-! ### Reading -/

section Reads

variable {env : Env W} {b : Build} {t : TimedHart W} {c : Counters}

/-- The counters are where each build keeps them. -/
structure Keeps (b : Build) (t : TimedHart W) (c : Counters) : Prop where
  instret : t.hart.csrs.instret = c.minstret
  plain : b = .plain → ∃ n, t.hart.cycleCounter.toNat = n * cycleTime ∧
    BitVec.ofNat 64 n = c.mcycle
  pipeline : b = .pipeline → t.pipeline.numTotalCycles = c.mcycle

theorem eq_of_halves {x y : BitVec 64} (hlow : low x = low y) (hhigh : high x = high y) : x = y := by
  refine BitVec.eq_of_getLsbD_eq fun k hk => ?_
  by_cases hhalf : k < 32
  · have hbit := congrArg (·.getLsbD k) hlow
    simpa [low, BitVec.getLsbD_extractLsb', hhalf] using hbit
  · have hbit := congrArg (·.getLsbD (k - 32)) hhigh
    have hlt : k - 32 < 32 := by omega
    have hsum : 32 + (k - 32) = k := by omega
    simpa [high, BitVec.getLsbD_extractLsb', hlt, hsum] using hbit

/-- The cycle count of the build is the counter. -/
theorem currentCycles_eq (hkeeps : Keeps b t c) :
    currentCycles b t t.hart = .ok c.mcycle t.hart := by
  cases b with
  | pipeline =>
    rw [← hkeeps.pipeline rfl]
    rfl
  | plain =>
    obtain ⟨n, hn, hcycle⟩ := hkeeps.plain rfl
    have hassert : assert (fun h : Hart W => h.cycleCounter.toNat % cycleTime = 0) t.hart =
        .ok () t.hart := by
      rw [assert_eq, if_pos (decide_eq_true (by rw [hn, Nat.mul_mod_left]))]
    refine (bind_of_ok hassert).trans ?_
    have hvalue : t.hart.cycleCounter.toNat / cycleTime = n := by
      rw [hn]
      exact Nat.mul_div_cancel _ (by decide)
    rw [← hcycle, ← hvalue]
    rfl

theorem readCycle_eq {m : M W (BitVec 64)} {x : BitVec 64} {h h' : Hart W} (hm : m h = .ok x h') :
    readCycle m h = .ok x { h' with csrs := { h'.csrs with cycle := x } } :=
  (bind_of_ok hm).trans rfl

/-- The four registers, read. -/
theorem getCsrValue_counters (env : Env W) (m : M W (BitVec 64)) (h : Hart W) :
    getCsrValue env m 0xB00 h = (readCycle m >>= fun x => pure (low x)) h ∧
      getCsrValue env m 0xB80 h = (readCycle m >>= fun x => pure (high x)) h ∧
      getCsrValue env m 0xB02 h = .ok (low h.csrs.instret) h ∧
      getCsrValue env m 0xB82 h = .ok (high h.csrs.instret) h :=
  ⟨rfl, rfl, rfl, rfl⟩

theorem readsAs_of_keeps (hkeeps : Keeps b t c) : ReadsAs env b t c := by
  have hread := readCycle_eq (currentCycles_eq hkeeps)
  obtain ⟨hcycle, hcycleh, hinstret, hinstreth⟩ :=
    getCsrValue_counters env (currentCycles b t) t.hart
  rw [bind_of_ok hread] at hcycle hcycleh
  rw [hkeeps.instret] at hinstret hinstreth
  intro addr haddr
  simp only [counterAddrs, List.mem_cons, List.not_mem_nil, or_false] at haddr
  rcases haddr with rfl | rfl | rfl | rfl
  · exact ⟨_, hcycle⟩
  · exact ⟨_, hcycleh⟩
  · exact ⟨_, hinstret⟩
  · exact ⟨_, hinstreth⟩

theorem computeAndGetCurrentCycles_ok {x : BitVec 64} {h h' : Hart W}
    (hr : computeAndGetCurrentCycles h = .ok x h') :
    h.cycleCounter.toNat % cycleTime = 0 ∧
      x = BitVec.ofNat 64 (h.cycleCounter.toNat / cycleTime) := by
  obtain ⟨_, h₁, hassert, hrest⟩ := bind_eq_ok.1 hr
  rw [assert_eq] at hassert
  split_ifs at hassert with hmod
  cases hassert
  cases hrest
  exact ⟨of_decide_eq_true hmod, rfl⟩

theorem keeps_of_readsAs (hreads : ReadsAs env b t c) : Keeps b t c := by
  obtain ⟨hcycle, hcycleh, hinstret, hinstreth⟩ :=
    getCsrValue_counters env (currentCycles b t) t.hart
  obtain ⟨_, hlow⟩ := hreads 0xB00 (by decide)
  obtain ⟨_, hhigh⟩ := hreads 0xB80 (by decide)
  obtain ⟨_, hilow⟩ := hreads 0xB02 (by decide)
  obtain ⟨_, hihigh⟩ := hreads 0xB82 (by decide)
  obtain ⟨x, h₁, hread, hlow⟩ := bind_eq_ok.1 (hcycle.symm.trans hlow)
  obtain ⟨y, h₂, hread', hhigh⟩ := bind_eq_ok.1 (hcycleh.symm.trans hhigh)
  cases hread.symm.trans hread'
  injection hlow with hlow
  injection hhigh with hhigh
  have hx : x = c.mcycle := eq_of_halves hlow hhigh
  obtain ⟨_, h₃, hcurrent, hstored⟩ := bind_eq_ok.1 hread
  cases hstored
  injection hinstret.symm.trans hilow with hilow
  injection hinstreth.symm.trans hihigh with hihigh
  refine ⟨eq_of_halves hilow hihigh, ?_, ?_⟩
  · rintro rfl
    obtain ⟨hmod, hvalue⟩ := computeAndGetCurrentCycles_ok hcurrent
    exact ⟨_, (Nat.div_mul_cancel (Nat.dvd_of_mod_eq_zero hmod)).symm, hvalue.symm.trans hx⟩
  · rintro rfl
    cases hcurrent
    exact hx

end Reads

/-! ### Instructions -/

section Instr

variable {env : Env W} {b : Build} {i : Instruction} {op : Opcode} {t t' : TimedHart W}

/-- The counters of the hart. -/
def counts (h : Hart W) : BitVec 64 × BitVec 64 := (h.csrs.instret, h.cycleCounter)

instance : IntegerFrame (Unchanged (W := W) counts) where
  regs _ _ := rfl
  pc _ _ := rfl
  status _ _ := rfl
  shallExit _ _ := rfl
  niceUart _ _ op := by cases op <;> rfl
  world _ _ := rfl

instance : FloatFrame (Unchanged (W := W) counts) where
  fpRegs _ _ := rfl
  exceptionFlags _ _ := rfl
  roundingMode _ _ := rfl
  fcsr _ _ := rfl
  mstatus _ _ := rfl

instance : CounterFrame (Unchanged (W := W) counts) where
  time _ _ := rfl
  cycle _ _ := rfl

instance : HandlerFrame (Unchanged (W := W) counts) where
  lrScCounter _ _ := rfl
  prv _ _ := rfl
  csrs _ _ _ _ _ _ _ _ _ _ _ := rfl

instance : DecodeFrame (Unchanged (W := W) counts) where
  decoded _ _ _ := rfl

instance : IntegerFrame (Unchanged (W := W) Hart.op) where
  regs _ _ := rfl
  pc _ _ := rfl
  status _ _ := rfl
  shallExit _ _ := rfl
  niceUart _ _ op := by cases op <;> rfl
  world _ _ := rfl

instance : FloatFrame (Unchanged (W := W) Hart.op) where
  fpRegs _ _ := rfl
  exceptionFlags _ _ := rfl
  roundingMode _ _ := rfl
  fcsr _ _ := rfl
  mstatus _ _ := rfl

instance : CsrFrame (Unchanged (W := W) Hart.op) := ⟨fun _ _ => rfl⟩

instance : HandlerFrame (Unchanged (W := W) Hart.op) where
  lrScCounter _ _ := rfl
  prv _ _ := rfl
  csrs _ _ _ _ _ _ _ _ _ _ _ := rfl

/-- `minstret` after a write. -/
def instretWritten (v : Word) (x : BitVec 64) : CsrName → BitVec 64
  | .minstret => high x ++ v
  | .minstreth => v ++ low x
  | _ => x

theorem Counters.write_minstret (c : Counters) (v : Word) (name : CsrName) :
    (c.write v name).minstret = instretWritten v c.minstret name := by
  cases name <;> rfl

theorem Counters.write_mcycle {name : CsrName} (hlow : name ≠ .mcycle) (hhigh : name ≠ .mcycleh)
    (c : Counters) (v : Word) : (c.write v name).mcycle = c.mcycle := by
  unfold Counters.write
  split
  · exact absurd rfl hlow
  · exact absurd rfl hhigh
  · rfl
  · rfl
  · rfl

theorem instretWritten_others {name : CsrName} (hlow : name ≠ .minstret) (hhigh : name ≠ .minstreth)
    (v : Word) (x : BitVec 64) : instretWritten v x name = x := by
  unfold instretWritten
  split
  · exact absurd rfl hlow
  · exact absurd rfl hhigh
  · rfl

theorem setCsrValue_others (hstores : StoresCounters env) {addr : CsrAddr}
    (hlow : csrName env addr ≠ .minstret) (hhigh : csrName env addr ≠ .minstreth) (v : Word) :
    Respects (Unchanged counts) (setCsrValue env addr v) := by
  have hkeeps {f : Csrs → Csrs} (hf : ∀ c, (f c).instret = c.instret) :
      Respects (Unchanged counts) (setCsrs f : M W Unit) := by
    refine .modify fun h => ?_
    show ((f h.csrs).instret, _) = _
    rw [hf]
    rfl
  have hwrite := hkeeps fun c => hstores.others c addr v hlow hhigh
  have hsatp := hkeeps (f := fun c => { c with satp := writeMasked c.satp v env.masks.satp })
    fun _ => rfl
  unfold setCsrValue
  cases hname : csrName env addr
  case minstret => exact absurd hname hlow
  case minstreth => exact absurd hname hhigh
  all_goals first
    | infer_instance
    | exact hkeeps fun _ => rfl

/-- A write that raises leaves the state. -/
theorem setCsrValue_error {addr : CsrAddr} {v : Word} {e : Raise} {h h' : Hart W}
    (hr : setCsrValue env addr v h = .error e h') : h' = h := by
  have hillegal {condition : Hart W → Bool} {f : Csrs → Csrs}
      (hr : (do illegalIf condition; setCsrs f : M W Unit) h = .error e h') : h' = h := by
    rw [illegalIf_bind] at hr
    split_ifs at hr
    · cases hr
      rfl
    · cases hr
  unfold setCsrValue at hr
  cases hname : csrName env addr <;> rw [hname] at hr <;> first
    | cases hr
    | exact hillegal hr

theorem setCsrValue_counts (hstores : StoresCounters env) {addr : CsrAddr} {v : Word} {h h' : Hart W}
    (hr : setCsrValue env addr v h = .ok () h') :
    counts h' = (instretWritten v h.csrs.instret (csrName env addr), h.cycleCounter) := by
  have hstored {name : CsrName} (hname : csrName env addr = name)
      (hdefault : name = .minstret ∨ name = .minstreth) :
      h' = { h with csrs := env.defaultWrite32 h.csrs addr v } := by
    have hset : (do
        illegalIf fun _ => !env.isValidCsr32Addr addr
        setCsrs fun c => env.defaultWrite32 c addr v : M W Unit) h = .ok () h' := by
      unfold setCsrValue at hr
      rcases hdefault with rfl | rfl <;> (rw [hname] at hr; exact hr)
    rw [illegalIf_bind] at hset
    split_ifs at hset
    cases hset
    rfl
  by_cases hlow : csrName env addr = .minstret
  · rw [hstored hlow (.inl rfl), hlow]
    exact congrArg (·, h.cycleCounter) (hstores.instret h.csrs addr v hlow)
  by_cases hhigh : csrName env addr = .minstreth
  · rw [hstored hhigh (.inr rfl), hhigh]
    exact congrArg (·, h.cycleCounter) (hstores.instreth h.csrs addr v hhigh)
  have hsame : counts h' = counts h := (setCsrValue_others hstores hlow hhigh v).ok hr
  rw [hsame, instretWritten_others hlow hhigh]
  rfl

theorem exec_counts_others (env : Env W) (b : Build) (i : Instruction) (hcsr : ¬IsCsr op) :
    counts (final (exec env b i op t)).hart = counts t.hart := by
  by_cases hreturn : IsReturn op
  · rw [exec_return env b i hreturn, final_lift]
    rcases return_cases env i hreturn t.hart with ⟨m, -, hleave⟩ | hillegal
    · rw [hleave]
      cases m <;> rfl
    · rw [hillegal]
      rfl
  · exact (respects_exec_kind (R := Unchanged counts) env i b hreturn (fun h => absurd h hcsr)
      (fun _ => inferInstance) fun _ => inferInstance).rel t

theorem exec_counts_error {e : Raise} (hr : exec env b i op t = .error e t') :
    counts t'.hart = counts t.hart := by
  by_cases hcsr : IsCsr op
  · rcases (closes_exec (R := Unchanged counts) b env i hcsr).rel t with
      hsame | ⟨_, t₁, ⟨_, ⟨-, v, rfl⟩, rfl⟩, hsame, heq⟩
    · rwa [hr] at hsame
    · obtain ⟨h', hset, rfl⟩ := lift_error (heq.symm.trans hr)
      rw [setCsrValue_error hset]
      exact hsame
  · have hsame := exec_counts_others env b i (t := t) hcsr
    rwa [hr] at hsame

theorem getCsrValue_instret {m : M W (BitVec 64)} {addr : CsrAddr} {old : Word} {h h' : Hart W}
    {c : Counters} (hc : h.csrs.instret = c.minstret)
    (hname : csrName env addr = .minstret ∨ csrName env addr = .minstreth)
    (hr : getCsrValue env m addr h = .ok old h') : old = c.half (csrName env addr) := by
  obtain ⟨_, h₁, hcheck, hread⟩ := bind_eq_ok.1 hr
  obtain ⟨-, rfl⟩ := illegalIf_ok hcheck
  rcases hname with hname | hname <;> rw [hname] at hread ⊢
  · cases hread
    exact congrArg low hc
  · cases hread
    exact congrArg high hc

/-- An instruction replaces the half of `minstret` that it writes. -/
theorem exec_counts_ok (hstores : StoresCounters env) {c : Counters}
    (hc : t.hart.csrs.instret = c.minstret) (hr : exec env b i op t = .ok () t') :
    counts t'.hart = (if WritesCsr i op then
      (c.write (csrResult (c.half (csrName env i.csr)) (csrOperand i t.hart op) op)
        (csrName env i.csr)).minstret else c.minstret, t.hart.cycleCounter) := by
  by_cases hcsr : IsCsr op
  · rcases exec_csr_ok (R := Unchanged counts) hcsr hr with ⟨hw, hsame⟩ | ⟨hw, old, h₁, hwrite⟩
    · rw [if_neg hw, ← hc]
      exact hsame
    · have hbefore : counts h₁ = counts t.hart := hwrite.before
      have hinstret : h₁.csrs.instret = c.minstret := (congrArg Prod.fst hbefore).trans hc
      have hcycles : h₁.cycleCounter = t.hart.cycleCounter := congrArg Prod.snd hbefore
      rw [setCsrValue_counts hstores hwrite.call, if_pos hw, hinstret, hcycles,
        Counters.write_minstret]
      by_cases hname : csrName env i.csr = .minstret ∨ csrName env i.csr = .minstreth
      · -- the value is made of the half that the instruction reads, if it reads
        have hvalue : csrResult old (csrOperand i t.hart op) op =
            csrResult (c.half (csrName env i.csr)) (csrOperand i t.hart op) op := by
          rcases hwrite.read with (rfl | rfl) | ⟨cycles, h₂, hread⟩
          · rfl
          · rfl
          · rw [getCsrValue_instret hc hname hread]
        rw [hvalue]
      · rw [not_or] at hname
        rw [instretWritten_others hname.1 hname.2, instretWritten_others hname.1 hname.2]
  · have hw : ¬WritesCsr i op := fun hw => hcsr (isCsr_of_writes hw)
    have hsame := exec_counts_others env b i (t := t) hcsr
    rw [hr] at hsame
    rw [if_neg hw, ← hc]
    exact hsame

end Instr

/-! ### Bookkeeping -/

section Bookkeeping

variable {env : Env W} {b : Build} {t t' : TimedHart W}

/-- What the bookkeeping of an instruction looks at and changes. -/
def bookkept (h : Hart W) : (BitVec 64 × BitVec 64) × Word × Opcode :=
  (counts h, h.csrs.mcountinhibit, h.op)

instance : IntegerFrame (Unchanged (W := W) bookkept) where
  regs _ _ := rfl
  pc _ _ := rfl
  status _ _ := rfl
  shallExit _ _ := rfl
  niceUart _ _ op := by cases op <;> rfl
  world _ _ := rfl

instance : WindowFrame (Unchanged (W := W) bookkept) where
  lrScCounter _ _ := rfl

theorem addInstr_instret (h : Hart W) :
    (addInstr h).csrs.instret = h.csrs.instret + if instretInhibited h then 0 else 1 := by
  unfold addInstr instretInhibited
  dsimp only
  split
  · exact (BitVec.add_zero _).symm
  · rfl

theorem addCycles_cycleCounter (n : ℕ) (h : Hart W) :
    (addCycles n h).cycleCounter =
      h.cycleCounter + if cycleInhibited h then 0 else BitVec.ofNat 64 n := by
  unfold addCycles cycleInhibited
  dsimp only
  split
  · exact (BitVec.add_zero _).symm
  · rfl

theorem countInstr_counts {op : Opcode} {h h' : Hart W} (hr : countInstr env op h = .ok () h') :
    h'.csrs.instret = h.csrs.instret + (if instretInhibited h then 0 else 1) ∧
      h'.cycleCounter = h.cycleCounter +
        (if cycleInhibited h then 0 else BitVec.ofNat 64 (instrCycles op)) ∧
      h'.csrs.mcountinhibit = h.csrs.mcountinhibit ∧ h'.op = h.op := by
  obtain ⟨_, h₁, hinstr, hrest⟩ := bind_eq_ok.1 hr
  cases hinstr
  obtain ⟨_, h₂, hwindow, hcycles⟩ := bind_eq_ok.1 hrest
  cases hcycles
  have hsame : bookkept h₂ = bookkept (addInstr h) :=
    (inferInstance : Respects (Unchanged bookkept) (countLrSc env)).ok hwindow
  have hinstret : h₂.csrs.instret = (addInstr h).csrs.instret := congrArg (·.1.1) hsame
  have hcycle : h₂.cycleCounter = h.cycleCounter := congrArg (·.1.2) hsame
  have hinhibit : h₂.csrs.mcountinhibit = h.csrs.mcountinhibit := congrArg (·.2.1) hsame
  refine ⟨hinstret.trans (addInstr_instret h), ?_, hinhibit, congrArg (·.2.2) hsame⟩
  rw [addCycles_cycleCounter, hcycle, cycleInhibited, hinhibit]
  rfl

/-- What follows the count leaves the counters alone. -/
theorem performanceAndSyncUpdate_counts {op : Opcode}
    (hr : performanceAndSyncUpdate env b op t = .ok () t') :
    ∃ h, countInstr env op t.hart = .ok () h ∧ bookkept t'.hart = bookkept h := by
  have hset (n : BitVec 64) : Respects (Unchanged bookkept) (modify (setCycles n) : M W Unit) :=
    .modify fun _ => rfl
  have hadvance (n : BitVec 64) : Respects (Unchanged bookkept) (advanceCycles env n) := by
    unfold advanceCycles
    infer_instance
  obtain ⟨_, t₁, hlift, hrest⟩ := bind_eq_ok.1 hr
  obtain ⟨h, hcount, rfl⟩ := lift_ok hlift
  refine ⟨h, hcount, ?_⟩
  cases b with
  | plain =>
    have hrest' : Respects (OnHart (Unchanged bookkept))
      (lift (advanceQuantum env (instrCycles op))) := inferInstance
    exact hrest'.ok hrest
  | pipeline =>
    have hrest' : Respects (OnHart (Unchanged bookkept)) (do
      charge fun p => p.advance 1
      let t ← get
      lift (advanceCycles env t.pipeline.numTotalCycles)) := inferInstance
    exact hrest'.ok hrest

/-- What follows the instruction counts it. -/
theorem afterInstr_counts (hr : afterInstr env b t = .ok () t') :
    t'.hart.csrs.instret =
        t.hart.csrs.instret + (if instretInhibited t'.hart then 0 else 1) ∧
      t'.hart.cycleCounter = t.hart.cycleCounter +
        (if cycleInhibited t'.hart then 0 else BitVec.ofNat 64 (instrCycles t'.hart.op)) ∧
      t'.hart.op = t.hart.op := by
  obtain ⟨_, t₁, hfinish, hrest⟩ := bind_eq_ok.1 hr
  obtain ⟨_, hmod, rfl⟩ := lift_ok hfinish
  cases hmod
  obtain ⟨h, hcount, hsame⟩ := performanceAndSyncUpdate_counts hrest
  obtain ⟨hinstret, hcycle, hinhibit, hop⟩ := countInstr_counts hcount
  have hop' : t'.hart.op = t.hart.op := (congrArg (·.2.2) hsame).trans hop
  have hinhibit' : t'.hart.csrs.mcountinhibit = t.hart.csrs.mcountinhibit :=
    (congrArg (·.2.1) hsame).trans hinhibit
  rw [instretInhibited, cycleInhibited, hinhibit', hop']
  exact ⟨(congrArg (·.1.1) hsame).trans hinstret, (congrArg (·.1.2) hsame).trans hcycle, rfl⟩

end Bookkeeping

/-! ### Main result -/

section Run

variable (env : Env W) (b : Build)

/-- The instruction, if one is executed, does not write `mcycle`, or may not access it;
`cycle_counter` has room for its cycles, and the pipeline does not run while the cycles are
inhibited. -/
structure KeepsCycle (t : TimedHart W) : Prop where
  instr : Starts t → ∀ h, fetch env (startInstr t.hart) = .ok () h → WritesCsr h.instr h.op →
    invalidCsrAccess h h.instr.csr true = false →
      csrName env h.instr.csr ≠ .mcycle ∧ csrName env h.instr.csr ≠ .mcycleh
  room : Starts t → b = .plain →
    t.hart.cycleCounter.toNat + instrCycles (fetched env t.hart) < 2 ^ 64
  clock : Starts t → b = .pipeline → cycleInhibited t.hart = false

/-- A run with the counters as the steps should leave them. -/
inductive Counting (condition : TimedHart W → Prop) (t₀ : TimedHart W) (c₀ : Counters) :
    TimedHart W → Counters → Prop
  | refl : Counting condition t₀ c₀ t₀ c₀
  | tail {t t' : TimedHart W} {c : Counters} (hrun : Counting condition t₀ c₀ t c)
      (hcondition : condition t) (hstep : runStep env b t = .ok () t') :
      Counting condition t₀ c₀ t' (c.next env b t t')

variable {env b} {t t' : TimedHart W} {c : Counters}

/-- The instruction leaves in `minstret` what it should, and does not touch the cycle count. -/
theorem takeStep_counts (hstores : StoresCounters env) (hc : t.hart.csrs.instret = c.minstret)
    (hr : takeStep env b { t with hart := startInstr t.hart } = .ok () t') :
    counts t'.hart = ((c.written env b t).minstret, t.hart.cycleCounter) := by
  have hrel := takeStep_rel (R := Unchanged counts) hr
  have hfetch := (respects_fetch : Respects (Unchanged counts) (fetch env)).rel (startInstr t.hart)
  rw [execStep_eq] at hrel
  refine hrel.trans ?_
  unfold Counters.written
  cases hf : fetch env (startInstr t.hart) with
  | error e h =>
    rw [hf] at hfetch
    dsimp only
    rw [← hc]
    exact hfetch
  | ok _ h =>
    rw [hf] at hfetch
    have hfetched : counts h = counts t.hart := hfetch
    dsimp only
    cases hexec : exec env b h.instr h.op { t with hart := h } with
    | error e t₂ =>
      dsimp only
      rw [← hc]
      exact (exec_counts_error hexec).trans hfetched
    | ok _ t₂ =>
      have hcounts := exec_counts_ok hstores ((congrArg Prod.fst hfetched).trans hc) hexec
      have hcycles : h.cycleCounter = t.hart.cycleCounter := congrArg Prod.snd hfetched
      refine hcounts.trans ?_
      simp only [hcycles]
      split <;> rfl

theorem written_mcycle (hstarts : Starts t) (hcondition : KeepsCycle env b t) :
    (c.written env b t).mcycle = c.mcycle := by
  unfold Counters.written
  cases hf : fetch env (startInstr t.hart) with
  | error e h => rfl
  | ok _ h =>
    dsimp only
    cases hexec : exec env b h.instr h.op { t with hart := h } with
    | error e t₂ => rfl
    | ok _ t₂ =>
      by_cases hw : WritesCsr h.instr h.op
      · rcases exec_csr_ok (R := Unchanged counts) (isCsr_of_writes hw) hexec with
          ⟨hno, -⟩ | ⟨-, old, h₁, hwrite⟩
        · exact absurd hw hno
        · obtain ⟨hlow, hhigh⟩ := hcondition.instr hstarts h hf hw hwrite.access
          simp only [hw, if_true]
          exact Counters.write_mcycle hlow hhigh _ _
      · simp only [hw]
        rfl

theorem instrCycles_dvd (op : Opcode) : cycleTime ∣ instrCycles op := by
  unfold instrCycles
  split <;> simp

/-- The cycles that are counted are those of the instruction that was fetched. -/
theorem takeStep_op (hr : takeStep env b { t with hart := startInstr t.hart } = .ok () t') :
    t'.hart.op = fetched env t.hart := by
  have hrel := takeStep_rel (R := Unchanged Hart.op) hr
  rw [execStep_eq] at hrel
  refine hrel.trans ?_
  unfold fetched
  cases fetch env (startInstr t.hart) with
  | error e h => rfl
  | ok _ h =>
    by_cases hreturn : IsReturn h.op
    · dsimp only
      rw [exec_return env b h.instr hreturn, final_lift]
      rcases return_cases env h.instr hreturn h with ⟨m, -, hleave⟩ | hillegal
      · rw [hleave]
        cases m <;> rfl
      · rw [hillegal]
        rfl
    · exact (respects_exec_kind (R := Unchanged Hart.op) env h.instr b hreturn
        (fun _ => inferInstance) (fun _ => inferInstance) fun _ => inferInstance).rel
          { t with hart := h }

theorem keeps_step (hstores : StoresCounters env) (hcondition : KeepsCycle env b t)
    (hkeeps : Keeps b t c) (hr : runStep env b t = .ok () t') :
    Keeps b t' (c.next env b t t') := by
  unfold Counters.next
  rcases runStep_ok hr with ⟨hbreak, rfl⟩ | ⟨hbreak, t₁, htake, hafter⟩
  · rw [if_pos hbreak]
    exact ⟨hkeeps.instret, hkeeps.plain, hkeeps.pipeline⟩
  have hstarts := starts_of_ok hr hbreak
  rw [hbreak, if_neg Bool.false_ne_true, written_mcycle hstarts hcondition]
  have htaken := takeStep_counts hstores hkeeps.instret htake
  obtain ⟨hinstret, hcycle, hop⟩ := afterInstr_counts hafter
  refine ⟨?_, ?_, ?_⟩
  · rw [hinstret, show t₁.hart.csrs.instret = _ from congrArg Prod.fst htaken]
  · rintro rfl
    obtain ⟨n, hn, hvalue⟩ := hkeeps.plain rfl
    have hroom : t.hart.cycleCounter.toNat + instrCycles t'.hart.op < 2 ^ 64 := by
      rw [hop, takeStep_op htake]
      exact hcondition.room hstarts rfl
    have hcounted : t₁.hart.cycleCounter = t.hart.cycleCounter := congrArg Prod.snd htaken
    refine ⟨n + if cycleInhibited t'.hart then 0 else instrCycles t'.hart.op / cycleTime, ?_, ?_⟩
    · rw [hcycle, hcounted, Nat.add_mul, ← hn]
      split
      · rw [Nat.zero_mul, Nat.add_zero]
        exact congrArg BitVec.toNat (BitVec.add_zero _)
      · rw [Nat.div_mul_cancel (instrCycles_dvd _), BitVec.toNat_add, BitVec.toNat_ofNat,
          Nat.add_mod_mod, Nat.mod_eq_of_lt hroom]
    · rw [BitVec.ofNat_add, hvalue, countedCycles]
      split <;> rfl
  · rintro rfl
    rw [countedCycles, hcondition.clock hstarts rfl, hkeeps.pipeline rfl]
    simp only [Bool.false_eq_true, if_false]
    rw [BitVec.add_comm, BitVec.sub_add_cancel]

/-- Along a run of steps that do not write `mcycle`, do not overflow `cycle_counter`, and with
`PIPELINE_TIMING` do not start while `mcycle` is inhibited, `get_csr_value` returns the counters as
they should be. -/
theorem readsAs_of_run {t₀ : TimedHart W} {c₀ : Counters} (hstores : StoresCounters env)
    (hstart : ReadsAs env b t₀ c₀) (hrun : Counting env b (KeepsCycle env b) t₀ c₀ t c) :
    ReadsAs env b t c := by
  refine readsAs_of_keeps ?_
  induction hrun with
  | refl => exact keeps_of_readsAs hstart
  | tail _ hcondition hstep ih => exact keeps_step hstores hcondition ih hstep

end Run

/-- A platform with the counters among its CSRs. -/
def Env.counters : Env BareMemory :=
  { Env.bare with
    isValidCsr32Addr := fun addr => addr ∈ counterAddrs
    defaultWrite32 := fun c addr v => match csrName Env.bare addr with
      | .mcycle => { c with cycle := high c.cycle ++ v }
      | .mcycleh => { c with cycle := v ++ low c.cycle }
      | .minstret => { c with instret := high c.instret ++ v }
      | .minstreth => { c with instret := v ++ low c.instret }
      | _ => { c with others := Function.update c.others addr v } }

theorem storesCounters_counters : StoresCounters Env.counters where
  cycle c addr v hname := by
    have hname : csrName Env.bare addr = .mcycle := hname
    simp only [Env.counters, hname]
  cycleh c addr v hname := by
    have hname : csrName Env.bare addr = .mcycleh := hname
    simp only [Env.counters, hname]
  instret c addr v hname := by
    have hname : csrName Env.bare addr = .minstret := hname
    simp only [Env.counters, hname]
  instreth c addr v hname := by
    have hname : csrName Env.bare addr = .minstreth := hname
    simp only [Env.counters, hname]
  others c addr v hlow hhigh := by
    have hlow : csrName Env.bare addr ≠ .minstret := hlow
    have hhigh : csrName Env.bare addr ≠ .minstreth := hhigh
    simp only [Env.counters]
    split <;> first
      | rfl
      | exact absurd ‹_› hlow
      | exact absurd ‹_› hhigh

theorem readsAs_onlyInstr (w : Word) : ReadsAs Env.counters .plain (onlyInstr w) ⟨0, 0⟩ :=
  readsAs_of_keeps ⟨rfl, fun _ => ⟨0, rfl, rfl⟩, fun _ => rfl⟩

/-- `CSRRSI x0, minstret, 4` sets a bit of the counter and is counted. -/
theorem minstret_written : ReadsAs Env.counters .plain
    (final (runStep Env.counters .plain (onlyInstr 0xB0226073))) ⟨1, 5⟩ := by
  refine readsAs_of_run storesCounters_counters (readsAs_onlyInstr 0xB0226073)
    (.tail .refl ⟨fun _ h hf _ _ => ?_, fun _ _ => by decide, fun _ hb => ?_⟩ rfl)
  · cases hf
    exact ⟨by decide, by decide⟩
  · cases hb

/-- `CSRRSI x0, mcycle, 16` should leave `mcycle` at seventeen. -/
theorem mcycle_not_written : ¬∀ t c,
    Counting Env.counters .plain (fun _ => True) (onlyInstr 0xB0086073) ⟨0, 0⟩ t c →
      ReadsAs Env.counters .plain t c := by
  intro hclaim
  obtain ⟨_, hread⟩ := hclaim _ _ (.tail .refl trivial rfl) 0xB00 (by decide)
  injection hread with hread
  exact absurd hread (by decide)

end Vcil.Iss
