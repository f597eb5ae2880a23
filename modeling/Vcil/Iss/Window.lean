import Vcil.Iss.Divergence
import Vcil.Iss.Effects
import Vcil.Iss.TrapNesting

/-!
# The LR/SC window

`LR.W` opens a window in which the bus stays locked and no synchronization takes place.  It should
last 17 instructions at most.

* `EndsClosed`: a step that ends with a closed window, the bus unlocked and a due synchronization
  performed;
* `WindowBounded`: in a run one of any 17 steps is of that kind;
* `Rearms`: the step opens the window again, which the `PIPELINE_TIMING` build does inside of one;
* `windowBounded_of_not_rearms`: the window is bounded where no step does.
-/

-- a case is a chain of ten calls, each an instance
set_option synthInstance.maxSize 512

namespace Vcil.Iss

open Fallible
open Timing (Pipeline)

variable {W : Type} (env : Env W) (b : Build)

/-! ### The property -/

/-- A step that executes an instruction and returns. -/
def Executes (t t' : TimedHart W) : Prop :=
  atBreakpoint t.hart = false ∧ runStep env b t = .ok () t'

/-- The world after `quantum_keeper.inc(time)` with the synchronization if it is due. -/
def synced (time : ℕ) (w : World W) : World W :=
  if env.quantumNeedSync (env.quantumInc time w) then env.quantumSync (env.quantumInc time w)
  else env.quantumInc time w

/-- The step from `t` to `t'` ends with a closed window.  `t₁` is the state after the instruction and
the entry into a handler, `h₂` that after the count of the instruction. -/
structure EndsClosed (t t₁ t' : TimedHart W) (h₂ : Hart W) : Prop where
  instr : takeStep env b { t with hart := startInstr t.hart } = .ok () t₁
  count : countInstr env t₁.hart.op (finishInstr t₁.hart) = .ok () h₂
  counter : t'.hart.lrScCounter = 0
  /-- A window that the instruction closes is closed by a handler, `SC.W` or `WFI`. -/
  closed : t.hart.lrScCounter ≠ 0 → t₁.hart.lrScCounter = 0 → EntersHandler env b t ∨
    ∃ h, fetch env (startInstr t.hart) = .ok () h ∧ (h.op = .scW ∨ h.op = .wfi)
  /-- The bus is unlocked at the end of a window that is still open after the instruction. -/
  unlocked : t₁.hart.lrScCounter ≠ 0 →
    env.atomicUnlock t₁.hart.memView t₁.hart.world = (.ok (), h₂.world)
  sync : ∃ time, t'.hart.world = synced env time h₂.world

/-- Along the runs from `t₀` of steps that satisfy a condition, the counter is between 0 and 17, and
among any 17 consecutive steps one ends with a closed window. -/
def WindowBounded (condition : TimedHart W → Prop) (t₀ : TimedHart W) : Prop :=
  ∀ t, Run env b condition t₀ t → (0 ≤ t.hart.lrScCounter ∧ t.hart.lrScCounter ≤ 17) ∧
    ∀ s : ℕ → TimedHart W, s 0 = t →
      (∀ k < 17, condition (s k) ∧ Executes env b (s k) (s (k + 1))) →
      ∃ k < 17, ∃ t₁ h₂, EndsClosed env b (s k) t₁ (s (k + 1)) h₂

/-- In the `PIPELINE_TIMING` build, the step executes an `LR.W` inside of a window. -/
def Rearms (t : TimedHart W) : Prop :=
  b = .pipeline ∧ atBreakpoint t.hart = false ∧ t.hart.lrScCounter ≠ 0 ∧
    ∃ h, fetch env (startInstr t.hart) = .ok () h ∧ h.op = .lrW ∧ LoadReserves env h h.instr

/-! ### The bookkeeping -/

section Bookkeeping

variable {env b} {h h' : Hart W}

theorem countLrSc_ok (hr : countLrSc env h = .ok () h') :
    (h.lrScCounter = 0 ∧ h' = h) ∨ (0 < h.lrScCounter ∧ h'.lrScCounter = h.lrScCounter - 1 ∧
      (h'.lrScCounter = 0 → env.atomicUnlock h.memView h.world = (.ok (), h'.world))) := by
  change (if h.lrScCounter ≠ 0 then _ else pure () : M W Unit) h = _ at hr
  split_ifs at hr with hzero
  · obtain ⟨_, h₁, hset, hr⟩ := bind_eq_ok.1 hr
    cases hset
    obtain ⟨_, h₂, hassert, hr⟩ := bind_eq_ok.1 hr
    rw [assert_eq] at hassert
    split_ifs at hassert with hpos
    cases hassert
    have hpos : 0 ≤ h.lrScCounter - 1 := of_decide_eq_true hpos
    obtain ⟨_, _, hget, hr⟩ := bind_eq_ok.1 hr
    cases hget
    refine .inr ⟨by omega, ?_⟩
    split_ifs at hr with hone
    · have hone : h.lrScCounter - 1 = 0 := hone
      obtain ⟨_, h₃, hcounter, hunlock⟩ := bind_eq_ok.1 hr
      cases hcounter
      obtain ⟨w, hcall, rfl⟩ := access_eq_ok.1 hunlock
      exact ⟨hone.symm, fun _ => hcall⟩
    · cases hr
      exact ⟨rfl, fun hclosed => absurd hclosed hone⟩
  · cases hr
    exact .inl ⟨not_not.1 hzero, rfl⟩

theorem countInstr_ok {op : Opcode} (hr : countInstr env op h = .ok () h') :
    (h.lrScCounter = 0 ∧ h'.lrScCounter = 0) ∨
      (0 < h.lrScCounter ∧ h'.lrScCounter = h.lrScCounter - 1 ∧
        (h'.lrScCounter = 0 → env.atomicUnlock h.memView h.world = (.ok (), h'.world))) := by
  obtain ⟨_, h₁, hinstr, hr⟩ := bind_eq_ok.1 hr
  cases hinstr
  obtain ⟨_, h₂, hcount, hr⟩ := bind_eq_ok.1 hr
  cases hr
  rcases countLrSc_ok hcount with ⟨hzero, rfl⟩ | hopen
  · exact .inl ⟨hzero, hzero⟩
  · exact .inr hopen

theorem advanceQuantum_ok {time : ℕ} (hr : advanceQuantum env time h = .ok () h') :
    h'.lrScCounter = h.lrScCounter ∧
      (h.lrScCounter = 0 → h'.world = synced env time h.world) := by
  obtain ⟨_, h₁, hinc, hr⟩ := bind_eq_ok.1 hr
  cases hinc
  obtain ⟨_, _, hget, hr⟩ := bind_eq_ok.1 hr
  cases hget
  unfold synced
  split_ifs at hr with hsync
  · cases hr
    rw [Bool.and_eq_true, decide_eq_true_eq] at hsync
    exact ⟨rfl, fun _ => (if_pos hsync.1).symm⟩
  · cases hr
    rw [Bool.and_eq_true, decide_eq_true_eq, not_and'] at hsync
    exact ⟨rfl, fun hzero => (if_neg (hsync hzero)).symm⟩

/-- What follows the instruction, in both builds. -/
theorem afterInstr_ok {t t' : TimedHart W} (hr : afterInstr env b t = .ok () t') :
    ∃ h₂, countInstr env t.hart.op (finishInstr t.hart) = .ok () h₂ ∧
      t'.hart.lrScCounter = h₂.lrScCounter ∧
      (h₂.lrScCounter = 0 → ∃ time, t'.hart.world = synced env time h₂.world) := by
  obtain ⟨_, t₁, hfinish, hr⟩ := bind_eq_ok.1 hr
  obtain ⟨_, hmod, rfl⟩ := lift_ok hfinish
  cases hmod
  obtain ⟨_, _, hget, hr⟩ := bind_eq_ok.1 hr
  cases hget
  obtain ⟨_, t₂, hlift, hr⟩ := bind_eq_ok.1 hr
  obtain ⟨h₂, hcount, rfl⟩ := lift_ok hlift
  refine ⟨h₂, hcount, ?_⟩
  cases b with
  | plain =>
    obtain ⟨h₃, hquantum, rfl⟩ := lift_ok hr
    obtain ⟨hcounter, hsync⟩ := advanceQuantum_ok hquantum
    exact ⟨hcounter, fun hzero => ⟨_, hsync hzero⟩⟩
  | pipeline =>
    obtain ⟨_, t₃, hcharge, hr⟩ := bind_eq_ok.1 hr
    have hhart : t₃.hart = h₂ := charge_hart hcharge
    obtain ⟨_, _, hget, hr⟩ := bind_eq_ok.1 hr
    cases hget
    obtain ⟨h₄, hadvance, rfl⟩ := lift_ok hr
    obtain ⟨_, _, hget, hadvance⟩ := bind_eq_ok.1 hadvance
    cases hget
    obtain ⟨_, _, hset, hadvance⟩ := bind_eq_ok.1 hadvance
    cases hset
    obtain ⟨hcounter, hsync⟩ := advanceQuantum_ok hadvance
    rw [hhart] at hcounter hsync
    exact ⟨hcounter, fun hzero => ⟨_, hsync hzero⟩⟩

end Bookkeeping

/-! ### The instruction -/

/-- The window stays as it is, or it is closed. -/
def KeepsOrCloses (h h' : Hart W) : Prop :=
  h'.lrScCounter = h.lrScCounter ∨ h'.lrScCounter = 0

instance : IntegerFrame (KeepsOrCloses (W := W)) where
  refl _ := .inl rfl
  trans _ _ _ h₁ h₂ := by
    rcases h₂ with h₂ | h₂
    · exact h₁.imp h₂.trans h₂.trans
    · exact .inr h₂
  regs _ _ := .inl rfl
  pc _ _ := .inl rfl
  status _ _ := .inl rfl
  shallExit _ _ := .inl rfl
  niceUart _ _ op := by cases op <;> exact .inl rfl
  world _ _ := .inl rfl

instance : Respects KeepsOrCloses (setLrScCounter 0 : M W Unit) := .modify fun _ => .inr rfl

section Instr

variable {env b} {i : Instruction} {op : Opcode} {t t' : TimedHart W}

/-- Most instructions keep the counter. -/
theorem exec_lrScCounter (hop : ¬IsWindow op) (hr : exec env b i op t = .ok () t') :
    t'.hart.lrScCounter = t.hart.lrScCounter := by
  by_cases hreturn : IsReturn op
  · rw [exec_return env b i hreturn] at hr
    obtain ⟨h', hr', rfl⟩ := lift_ok hr
    rcases return_cases env i hreturn t.hart with ⟨m, -, hleave⟩ | hillegal
    · cases hleave.symm.trans hr'
      rfl
    · cases hillegal.symm.trans hr'
  · have hkeep := (respects_exec_kind (R := Unchanged Hart.lrScCounter) env i b hreturn
      (fun _ => inferInstance) (fun _ => inferInstance) fun h => absurd h hop).rel t
    rwa [hr] at hkeep

/-- `SC.W` and `WFI` may close the window. -/
theorem exec_closes (hop : op = .scW ∨ op = .wfi) (hr : exec env b i op t = .ok () t') :
    t'.hart.lrScCounter = t.hart.lrScCounter ∨ t'.hart.lrScCounter = 0 := by
  have hrespects : Respects (OnHart KeepsOrCloses) (exec env b i op) := by
    rcases hop with rfl | rfl <;> cases b
    · have : Respects KeepsOrCloses (scWPlain env i) := by
        unfold scWPlain
        infer_instance
      exact inferInstanceAs (Respects (OnHart KeepsOrCloses) (lift (scWPlain env i)))
    · show Respects (OnHart KeepsOrCloses) (scWPipeline env i)
      unfold scWPipeline
      infer_instance
    all_goals
      have : Respects KeepsOrCloses (wfi env) := by
        unfold wfi releaseLrScReservation
        infer_instance
      exact inferInstanceAs (Respects (OnHart KeepsOrCloses) (lift (wfi env)))
  have hrel := hrespects.rel t
  rwa [hr] at hrel

/-- Without the timing model, `LR.W` only opens a window outside of one. -/
theorem lrWPlain_counter {h h' : Hart W} (hr : lrWPlain env i h = .ok () h') :
    h'.lrScCounter = if h.lrScCounter = 0 then 17 else h.lrScCounter := by
  simp only [lrWPlain, trapCheckAddrAlignment, bind_eq_ok, requireIsa_eq_ok, reg_eq_ok,
    raiseIfSome_eq_ok, access_eq_ok] at hr
  obtain ⟨_, _, ⟨-, rfl⟩, _, _, ⟨rfl, rfl⟩, _, _, ⟨-, rfl⟩, v, _, ⟨w, -, rfl⟩, hr⟩ := hr
  obtain ⟨_, _, hset, _, _, hget, hr⟩ := hr
  cases hset
  cases hget
  split_ifs at hr with hzero
  · cases hr
    exact (if_pos hzero).symm
  · cases hr
    exact (if_neg hzero).symm

/-- With it, `LR.W` always does. -/
theorem lrWPipeline_counter (hr : lrWPipeline env i t = .ok () t') :
    LoadReserves env t.hart i ∧ t'.hart.lrScCounter = 17 := by
  obtain ⟨_, t₁, hisa, hr⟩ := bind_eq_ok.1 hr
  obtain ⟨h₁, hcheckIsa, rfl⟩ := lift_ok hisa
  obtain ⟨ha, rfl⟩ := requireIsa_eq_ok.1 hcheckIsa
  obtain ⟨addr, t₂, hread, hr⟩ := bind_eq_ok.1 hr
  obtain ⟨rfl, hhart⟩ := read_hart hread
  obtain ⟨_, t₃, hcheck, hr⟩ := bind_eq_ok.1 hr
  obtain ⟨h₃, hcheckAddr, rfl⟩ := lift_ok hcheck
  obtain ⟨halign, rfl⟩ := raiseIfSome_eq_ok.1 hcheckAddr
  obtain ⟨v, t₄, hload, hr⟩ := bind_eq_ok.1 hr
  obtain ⟨h₄, haccess, rfl⟩ := lift_ok hload
  obtain ⟨w, hcall, rfl⟩ := access_eq_ok.1 haccess
  obtain ⟨_, t₅, hwrite, hr⟩ := bind_eq_ok.1 hr
  obtain ⟨_, t₆, hset, hr⟩ := bind_eq_ok.1 hr
  obtain ⟨h₆, hcounter, rfl⟩ := lift_ok hset
  cases hcounter
  rw [charge_hart hr]
  rw [hhart] at hcall
  exact ⟨⟨ha, halign, v, congrArg Prod.fst hcall⟩, rfl⟩

end Instr

/-! ### One step -/

section Step

variable {env b} {t t₁ t' : TimedHart W}

/-- A step that enters a handler ends with a closed window. -/
theorem takeStep_enters (henters : EntersHandler env b t)
    (hr : takeStep env b { t with hart := startInstr t.hart } = .ok () t₁) :
    t₁.hart.lrScCounter = 0 := by
  have hends {m : Mode} {pc : Word} {h h' : Hart W} (hentry : Entry env m pc h h') :
      h'.lrScCounter = 0 := by
    obtain ⟨c, -, -, -, -, rfl⟩ := hentry.eq_enter
    rfl
  rcases takeStep_cases hr with ⟨t₂, h₁, hexec, hdeliver, rfl⟩ |
    ⟨t₂, e, h₁, h₂, -, -, hcatch, rfl⟩ | ⟨t₂, e, h₁, -, hcatch, rfl⟩
  · unfold EntersHandler at henters
    simp only [hexec] at henters
    rcases deliverInterrupt_entry hdeliver with ⟨hnone, -⟩ | ⟨m, hentry⟩
    · exact absurd hnone henters
    · exact hends hentry
  · obtain ⟨m, hentry⟩ := catchTrap_entry hcatch
    exact hends hentry
  · obtain ⟨m, hentry⟩ := catchTrap_entry hcatch
    exact hends hentry

theorem fetch_lrScCounter {h h' : Hart W} (hf : fetch env h = .ok () h') :
    h'.lrScCounter = h.lrScCounter := by
  have hkeep := (respects_fetch : Respects (Unchanged Hart.lrScCounter) (fetch env)).rel h
  rwa [hf] at hkeep

/-- The instruction keeps the counter, opens a window, or closes it. -/
theorem takeStep_counter (hbreak : atBreakpoint t.hart = false) (hno : ¬Rearms env b t)
    (hr : takeStep env b { t with hart := startInstr t.hart } = .ok () t₁) :
    t₁.hart.lrScCounter = t.hart.lrScCounter ∨
      (t.hart.lrScCounter = 0 ∧ t₁.hart.lrScCounter = 17) ∨
      (t₁.hart.lrScCounter = 0 ∧ (EntersHandler env b t ∨
        ∃ h, fetch env (startInstr t.hart) = .ok () h ∧ (h.op = .scW ∨ h.op = .wfi))) := by
  by_cases henters : EntersHandler env b t
  · exact .inr (.inr ⟨takeStep_enters henters hr, .inl henters⟩)
  have hexec := takeStep_ok henters hr
  rw [execStep_eq] at hexec
  cases hf : fetch env (startInstr t.hart) with
  | error e h =>
    simp only [hf] at hexec
    cases hexec
  | ok u h =>
    simp only [hf] at hexec
    have hcounter : h.lrScCounter = (startInstr t.hart).lrScCounter := fetch_lrScCounter hf
    rw [show t.hart.lrScCounter = h.lrScCounter from hcounter.symm]
    by_cases hwindow : IsWindow h.op
    · rcases hwindow with hop | hop
      · rw [hop] at hexec
        cases b with
        | plain =>
          obtain ⟨h', hlr, rfl⟩ := lift_ok hexec
          have hlr := lrWPlain_counter hlr
          split_ifs at hlr with hzero
          · exact .inr (.inl ⟨hzero, hlr⟩)
          · exact .inl hlr
        | pipeline =>
          obtain ⟨hload, hlr⟩ := lrWPipeline_counter hexec
          refine .inr (.inl ⟨?_, hlr⟩)
          by_contra hopen
          exact hno ⟨rfl, hbreak, hcounter ▸ hopen, h, hf, hop, hload⟩
      · rcases exec_closes hop hexec with hkeep | hclose
        · exact .inl hkeep
        · exact .inr (.inr ⟨hclose, .inr ⟨h, rfl, hop⟩⟩)
    · exact .inl (exec_lrScCounter hwindow hexec)

/-- A step that executes an instruction counts down, or opens a window, or ends with a closed one. -/
theorem executes_counter (hno : ¬Rearms env b t) (hstep : Executes env b t t') :
    (t.hart.lrScCounter = 0 ∧ t'.hart.lrScCounter = 16) ∨
      (0 < t'.hart.lrScCounter ∧ t'.hart.lrScCounter = t.hart.lrScCounter - 1) ∨
      ∃ t₁ h₂, EndsClosed env b t t₁ t' h₂ := by
  obtain ⟨hbreak, hrun⟩ := hstep
  rcases runStep_ok hrun with ⟨hat, -⟩ | ⟨-, t₁, htake, hafter⟩
  · rw [hbreak] at hat
    cases hat
  obtain ⟨h₂, hcount, hcounter, hsync⟩ := afterInstr_ok hafter
  have hinstr := takeStep_counter hbreak hno htake
  have hfinish : (finishInstr t₁.hart).lrScCounter = t₁.hart.lrScCounter := rfl
  have hends (hzero : h₂.lrScCounter = 0) : ∃ t₁ h₂, EndsClosed env b t t₁ t' h₂ := by
    refine ⟨t₁, h₂, htake, hcount, hcounter.trans hzero, fun hopen hclosed => ?_, fun hopen => ?_,
      hsync hzero⟩
    · rcases hinstr with hkeep | ⟨hzero', -⟩ | ⟨-, hhow⟩
      · exact absurd (hkeep.symm.trans hclosed) hopen
      · exact absurd hzero' hopen
      · exact hhow
    · rcases countInstr_ok hcount with ⟨hzero', -⟩ | ⟨-, -, hunlock⟩
      · exact absurd hzero' hopen
      · exact hunlock hzero
  rcases countInstr_ok hcount with ⟨-, hzero⟩ | ⟨hpos, hdown, -⟩
  · exact .inr (.inr (hends hzero))
  · by_cases hzero : h₂.lrScCounter = 0
    · exact .inr (.inr (hends hzero))
    · rw [hfinish] at hpos hdown
      rcases hinstr with hkeep | ⟨hstart, hopened⟩ | ⟨hclosed, -⟩
      · exact .inr (.inl (by omega))
      · exact .inl (by omega)
      · omega

/-- The counter of a reached state. -/
theorem counter_le_of_run {t₀ t : TimedHart W} (hstart : t₀.hart.lrScCounter = 0)
    (hrun : Run env b (fun t => ¬Rearms env b t) t₀ t) :
    0 ≤ t.hart.lrScCounter ∧ t.hart.lrScCounter ≤ 16 := by
  induction hrun with
  | refl => omega
  | @tail t t' _ hstep ih =>
    cases hbreak : atBreakpoint t.hart with
    | true =>
      rcases runStep_ok hstep.2 with ⟨-, rfl⟩ | ⟨hno, -⟩
      · exact ih
      · rw [hbreak] at hno
        cases hno
    | false =>
      rcases executes_counter hstep.1 ⟨hbreak, hstep.2⟩ with hopen | hdown | ⟨t₁, h₂, hends⟩
      · omega
      · omega
      · have := hends.counter
        omega

/-- Inside of a window the counter falls until a step ends with the window closed. -/
theorem closes_of_counter {s : ℕ → TimedHart W} {n : ℕ} (hpos : 0 < (s 0).hart.lrScCounter)
    (hn : (s 0).hart.lrScCounter ≤ n)
    (hsteps : ∀ k < n, ¬Rearms env b (s k) ∧ Executes env b (s k) (s (k + 1))) :
    ∃ k < n, ∃ t₁ h₂, EndsClosed env b (s k) t₁ (s (k + 1)) h₂ := by
  induction n generalizing s with
  | zero => omega
  | succ n ih =>
    obtain ⟨hno, hstep⟩ := hsteps 0 (Nat.succ_pos n)
    rcases executes_counter hno hstep with hopen | hdown | hends
    · omega
    · have hrest : ∀ k < n, ¬Rearms env b (s (k + 1)) ∧ Executes env b (s (k + 1)) (s (k + 2)) :=
        fun k hk => hsteps (k + 1) (by omega)
      obtain ⟨k, hk, hends⟩ := ih (s := fun k => s (k + 1)) hdown.1 (by omega) hrest
      exact ⟨k + 1, by omega, hends⟩
    · exact ⟨0, Nat.succ_pos n, hends⟩

end Step

/-! ### Main result -/

/-- Along every run from a closed window in which no step opens a window inside of one, the window is
bounded.  Without the timing model no step does. -/
theorem windowBounded_of_not_rearms {t₀ : TimedHart W} (hstart : t₀.hart.lrScCounter = 0) :
    WindowBounded env b (fun t => ¬Rearms env b t) t₀ := by
  intro t hrun
  obtain ⟨hnonneg, hle⟩ := counter_le_of_run hstart hrun
  refine ⟨⟨hnonneg, by omega⟩, fun s hs hsteps => ?_⟩
  subst hs
  rcases hnonneg.lt_or_eq with hpos | hzero
  · exact closes_of_counter hpos (by omega) hsteps
  -- the first step may open a window, which the other sixteen count down
  obtain ⟨hno, hstep⟩ := hsteps 0 (by omega)
  rcases executes_counter hno hstep with hopen | hdown | hends
  · have hrest : ∀ k < 16, ¬Rearms env b (s (k + 1)) ∧ Executes env b (s (k + 1)) (s (k + 2)) :=
      fun k hk => hsteps (k + 1) (by omega)
    have hcounter : (s 1).hart.lrScCounter = 16 := hopen.2
    obtain ⟨k, hk, hends⟩ := closes_of_counter (s := fun k => s (k + 1)) (n := 16)
      (show 0 < (s 1).hart.lrScCounter by omega)
      (show (s 1).hart.lrScCounter ≤ (16 : ℕ) by omega) hrest
    exact ⟨k + 1, by omega, hends⟩
  · omega
  · exact ⟨0, by omega, hends⟩

/-- `LR.W` throughout memory: the plain build closes the window nevertheless. -/
theorem windowBounded_lrW : WindowBounded Env.bare .plain
    (fun t => ¬Rearms Env.bare .plain t) (onlyInstr 0x1000A2AF) :=
  windowBounded_of_not_rearms _ _ rfl

/-- The states of the pipeline build with `LR.W` throughout memory. -/
def lrWStates (n : ℕ) : TimedHart BareMemory :=
  (fun t => final (runStep Env.bare .pipeline t))^[n] (onlyInstr 0x1000A2AF)

/-- The step returns, and leaves the window as an `LR.W` opens it. -/
def staysOpen (t : TimedHart BareMemory) : Bool :=
  match runStep Env.bare .pipeline t with
  | .ok _ t' => !atBreakpoint t.hart && t'.hart.lrScCounter == 16
  | .error _ _ => false

theorem executes_of_staysOpen {t : TimedHart BareMemory} (hopen : staysOpen t = true) :
    Executes Env.bare .pipeline t (final (runStep Env.bare .pipeline t)) ∧
      (final (runStep Env.bare .pipeline t)).hart.lrScCounter = 16 := by
  unfold staysOpen at hopen
  unfold Executes
  cases hrun : runStep Env.bare .pipeline t with
  | error e t' =>
    rw [hrun] at hopen
    cases hopen
  | ok _ t' =>
    simp only [hrun, Bool.and_eq_true, Bool.not_eq_true', beq_iff_eq] at hopen
    exact ⟨⟨hopen.1, rfl⟩, hopen.2⟩

/-- The build with the pipeline opens the window anew with every `LR.W`. -/
theorem not_windowBounded_lrW :
    ¬WindowBounded Env.bare .pipeline (fun _ => True) (onlyInstr 0x1000A2AF) := by
  intro hbounded
  have hopen : ∀ k < 17, staysOpen (lrWStates k) = true := by decide +kernel
  have hnext (k : ℕ) : lrWStates (k + 1) = final (runStep Env.bare .pipeline (lrWStates k)) :=
    Function.iterate_succ_apply' ..
  obtain ⟨k, hk, t₁, h₂, hends⟩ := (hbounded _ .refl).2 lrWStates rfl fun k hk =>
    ⟨trivial, hnext k ▸ (executes_of_staysOpen (hopen k hk)).1⟩
  have hcounter := hends.counter
  rw [hnext, (executes_of_staysOpen (hopen k hk)).2] at hcounter
  cases hcounter

end Vcil.Iss
