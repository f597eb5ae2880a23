import Vcil.Iss.Divergence

/-!
# The cycles of a coprocessor instruction

In the `PIPELINE_TIMING` build the clock should advance by the cycles that the coprocessor reports,
or by one when it is replaced by software.  All but the last are added by the instruction, with a
routine that asserts that there are any; the last is added by `performance_and_sync_update`.

* `niceCycles`: the cycles an instruction takes;
* `operandStalls`: the waiting for its registers;
* `CyclesAccounted`: the clock and the quantum keeper advance by as much;
* `cyclesAccounted_iff`: they do so if and only if two or more cycles are reported over the port.
-/

namespace Vcil.Iss

open Fallible
open Host (NiceUart)
open Timing (Pipeline)

variable {W : Type} (env : Env W)

/-! ### The property -/

/-- The cycles of an operation: those the coprocessor reports, if it answers, and one in software. -/
def niceCycles (h : Hart W) (op : Op) : Option ℕ :=
  if usesUart env op then
    (reportedCycles env h op (h.regs h.instr.rs1) (secondOperand h h.instr op)).map BitVec.toNat
  else some 1

/-- The registers of an instruction in the order of their use, the destination last. -/
def niceRegs (i : Instruction) : Op → List RegIdx
  | .sm3p0 | .sm3p1 => [i.rs1, i.rd]
  | .sm4ks | .sm4ed => [i.rs1, i.rs2, i.rd]

/-- The stalls until the registers are ready. -/
def operandStalls (i : Instruction) (op : Op) (p : Pipeline) : Option Pipeline :=
  (niceRegs i op).foldlM (fun p r => p.accessRegister r.toNat) p

/-- After the stalls of the instruction `i`, the clock advances by `n` cycles in all, and the quantum
keeper by the time since the last instruction; no assertion of the timing model fails. -/
def CyclesAccounted (t : TimedHart W) (i : Instruction) (op : Op) (n : ℕ) : Prop :=
  ∃ p t₁ p₁, operandStalls i op t.pipeline = some p ∧ execStep env .pipeline t = .ok () t₁ ∧
    t₁.pipeline.advance 1 = some p₁ ∧
    p₁.numTotalCycles = p.numTotalCycles + BitVec.ofNat 64 n ∧
    ∀ h, countInstr env t₁.hart.op t₁.hart = .ok () h →
      performanceAndSyncUpdate env .pipeline t₁.hart.op t₁ =
        lift (advanceQuantum env
          ((p₁.numTotalCycles - t.hart.lastCycles).toNat * cycleTime))
          ⟨setCycles p₁.numTotalCycles h, p₁⟩

/-! ### The registers -/

section

variable {env} {i : Instruction} {t : TimedHart W} {p : Pipeline}

theorem read_of_access {r : RegIdx} (hp : t.pipeline.accessRegister r.toNat = some p) :
    read r t = .ok (t.hart.regs r) { t with pipeline := p } :=
  (bind_of_ok (charge_of_some hp)).trans (lift_of_ok rfl)

theorem write_of_access {r : RegIdx} (v : Word)
    (hp : t.pipeline.accessRegister r.toNat = some p) :
    write r v t = .ok () ⟨{ t.hart with regs := Function.update t.hart.regs r v }, p⟩ :=
  (bind_of_ok (charge_of_some hp)).trans (lift_of_ok rfl)

theorem stalls_valid (rs : List RegIdx) (hp : p.Valid) :
    ∃ p', rs.foldlM (fun p r => p.accessRegister r.toNat) p = some p' ∧ p'.Valid := by
  induction rs generalizing p with
  | nil => exact ⟨p, rfl, hp⟩
  | cons r rs ih =>
    obtain ⟨p₁, hp₁, hready⟩ := hp.accessRegister r.toNat
    obtain ⟨p', hp', hvalid⟩ := ih hready.valid
    refine ⟨p', ?_, hvalid⟩
    rw [List.foldlM_cons, hp₁]
    exact hp'

/-- After the stalls and the call, the rest of the reported cycles is to be added. -/
theorem custom3Pipeline_eq {op : Op} (hcase : custom3Case env i = some (.nice op))
    (hp : operandStalls i op t.pipeline = some p) {v : Word} {h' : Hart W}
    (hcall : niceCall env op (t.hart.regs i.rs1) (secondOperand t.hart i op) t.hart = .ok v h') :
    custom3Pipeline env i t =
      advanceNice op ⟨{ h' with regs := Function.update h'.regs i.rd v }, p⟩ := by
  unfold operandStalls at hp
  unfold custom3Pipeline
  rw [hcase]
  cases op with
  | sm3p0 | sm3p1 =>
    simp only [niceRegs, List.foldlM_cons, List.foldlM_nil, bind_pure, Option.bind_eq_bind,
      Option.bind_eq_some_iff] at hp
    obtain ⟨p₁, hp₁, hp⟩ := hp
    have hlift := lift_of_ok (t := ⟨t.hart, p₁⟩) hcall
    simp only [secondOperand] at hlift ⊢
    rw [bind_of_ok (read_of_access hp₁), bind_of_ok hlift, bind_of_ok (write_of_access v hp)]
  | sm4ks | sm4ed =>
    simp only [niceRegs, List.foldlM_cons, List.foldlM_nil, bind_pure, Option.bind_eq_bind,
      Option.bind_eq_some_iff] at hp
    obtain ⟨p₁, hp₁, p₂, hp₂, hp⟩ := hp
    have hlift := lift_of_ok (t := ⟨t.hart, p₂⟩) hcall
    simp only [secondOperand] at hlift ⊢
    rw [bind_of_ok (read_of_access hp₁), bind_of_ok (read_of_access hp₂), bind_of_ok hlift,
      bind_of_ok (write_of_access v hp)]

end

/-! ### The clock -/

/-- The instruction and the update after it add the reported cycles. -/
theorem advanceNice_numTotalCycles {op : Op} {t t₁ : TimedHart W} {p₁ : Pipeline}
    (hadvance : advanceNice op t = .ok () t₁) (hp₁ : t₁.pipeline.advance 1 = some p₁) :
    p₁.numTotalCycles =
      t.pipeline.numTotalCycles + BitVec.ofNat 64 (niceUart t.hart op).cycles.toNat := by
  change charge (fun p => p.advance ((niceUart t.hart op).cycles.toNat - 1)) t = _ at hadvance
  unfold charge at hadvance
  cases hp : t.pipeline.advance ((niceUart t.hart op).cycles.toNat - 1) with
  | none =>
    simp only [hp] at hadvance
    cases hadvance
  | some p =>
    simp only [hp] at hadvance
    cases hadvance
    rw [Pipeline.advance_numTotalCycles hp₁, Pipeline.advance_numTotalCycles hp,
      BitVec.add_assoc, ← BitVec.ofInt_add, sub_add_cancel, BitVec.ofInt_natCast]

/-- The clock and the keeper after an instruction. -/
theorem performanceAndSyncUpdate_eq {t : TimedHart W} {p : Pipeline} {h : Hart W} {op : Opcode}
    (hp : t.pipeline.advance 1 = some p) (hcount : countInstr env op t.hart = .ok () h) :
    performanceAndSyncUpdate env .pipeline op t =
      lift (advanceQuantum env ((p.numTotalCycles - h.lastCycles).toNat * cycleTime))
        ⟨setCycles p.numTotalCycles h, p⟩ := by
  have hadvance : charge (fun p => p.advance 1) { t with hart := h } = .ok () ⟨h, p⟩ :=
    charge_of_some hp
  unfold performanceAndSyncUpdate
  rw [bind_of_ok (lift_of_ok hcount)]
  simp only
  rw [bind_of_ok hadvance]
  rfl

/-! ### The time of the last update -/

instance : Frame (Unchanged (W := W) Hart.lastCycles) where
  regs _ _ := rfl
  fpRegs _ _ := rfl
  pc _ _ := rfl
  csrs _ _ := rfl
  decoded _ _ _ := rfl
  status _ _ := rfl
  shallExit _ _ := rfl
  exceptionFlags _ _ := rfl
  roundingMode _ _ := rfl
  niceUart _ _ op := by cases op <;> rfl
  outside _ _ := rfl

instance : LrScFrame (Unchanged (W := W) Hart.lastCycles) where
  lrScCounter _ _ := rfl

theorem countInstr_lastCycles {op : Opcode} {h h' : Hart W}
    (hcount : countInstr env op h = .ok () h') : h'.lastCycles = h.lastCycles := by
  have hinstr : Respects (Unchanged Hart.lastCycles) (modify addInstr : M W Unit) :=
    .modify fun _ => rfl
  have hcycles : Respects (Unchanged Hart.lastCycles)
      (modify (addCycles (instrCycles op)) : M W Unit) := .modify fun _ => rfl
  have hlrsc : Respects (Unchanged Hart.lastCycles) (countLrSc env) := by
    unfold countLrSc
    infer_instance
  have hkeep : Respects (Unchanged Hart.lastCycles) (countInstr env op) := by
    unfold countInstr
    infer_instance
  have hrel := hkeep.rel h
  rwa [hcount] at hrel

theorem fetch_lastCycles {h h' : Hart W} (hf : fetch env h = .ok () h') :
    h'.lastCycles = h.lastCycles := by
  have hkeep := (respects_fetch : Respects (Unchanged Hart.lastCycles) (fetch env)).rel h
  rwa [hf] at hkeep

theorem niceCall_lastCycles {op : Op} {x y v : Word} {h h' : Hart W}
    (hcall : niceCall env op x y h = .ok v h') : h'.lastCycles = h.lastCycles := by
  have hkeep := (inferInstance :
    Respects (Unchanged Hart.lastCycles) (niceCall env op x y)).rel h
  rwa [hcall] at hkeep

/-! ### Main result -/

section

variable {env}

/-- The call of an instruction that takes a known number of cycles returns. -/
theorem niceCall_of_cycles {h : Hart W} {op : Op} {n : ℕ} (hn : niceCycles env h op = some n) :
    ∃ v h', niceCall env op (h.regs h.instr.rs1) (secondOperand h h.instr op) h = .ok v h' ∧
      (usesUart env op = true → (niceUart h' op).cycles.toNat = n) ∧
      (usesUart env op = false → n = 1) := by
  unfold niceCycles at hn
  cases hcall : niceCall env op (h.regs h.instr.rs1) (secondOperand h h.instr op) h with
  | ok v h' =>
    refine ⟨v, h', rfl, fun huart => ?_, fun hsoft => ?_⟩
    · rw [if_pos huart, reportedCycles_of_ok hcall] at hn
      exact Option.some.inj hn
    · rw [if_neg (by simp [hsoft])] at hn
      exact (Option.some.inj hn).symm
  | error e h' =>
    cases huart : usesUart env op with
    | true =>
      rw [if_pos huart, reportedCycles_of_error hcall] at hn
      cases hn
    | false =>
      rw [niceCall, if_neg (by simp [huart])] at hcall
      cases hcall

/-- From any state of the hart with a valid pipeline: a coprocessor instruction that takes `n` cycles
is accounted for if and only if they are reported over the port and are two or more. -/
theorem cyclesAccounted_iff {t : TimedHart W} (hvalid : t.pipeline.Valid) {h : Hart W}
    (hfetch : fetch env t.hart = .ok () h) (hop : h.op = .custom3)
    (hcore : env.nice.niceCore = true) {op : Op} (hcase : custom3Case env h.instr = some (.nice op))
    {n : ℕ} (hn : niceCycles env h op = some n) :
    CyclesAccounted env t h.instr op n ↔ usesUart env op = true ∧ 2 ≤ n := by
  obtain ⟨v, h', hcall, huart, hsoft⟩ := niceCall_of_cycles hn
  obtain ⟨p, hp, hpvalid⟩ := stalls_valid (niceRegs h.instr op) hvalid
  have hexec : execStep env .pipeline t =
      advanceNice op ⟨{ h' with regs := Function.update h'.regs h.instr.rd v }, p⟩ := by
    rw [execStep_of_fetch env .pipeline hfetch, hop]
    show (if env.nice.niceCore then custom3Pipeline env h.instr else lift unknownOpcode) _ = _
    rw [if_pos hcore]
    exact custom3Pipeline_eq (t := { t with hart := h }) hcase hp hcall
  obtain ⟨t₂, ht₂⟩ : ∃ t₂ : TimedHart W,
      t₂ = ⟨{ h' with regs := Function.update h'.regs h.instr.rd v }, p⟩ := ⟨_, rfl⟩
  have hpipeline : t₂.pipeline = p := by rw [ht₂]
  have hcount : niceUart t₂.hart op = niceUart h' op := by
    rw [ht₂]
    exact niceUart_setReg _ _ _
  have hlast : t₂.hart.lastCycles = t.hart.lastCycles := by
    rw [ht₂]
    exact (niceCall_lastCycles env hcall).trans (fetch_lastCycles env hfetch)
  obtain ⟨hok, herror⟩ := advanceNice_ok op (t := t₂) (hpipeline ▸ hpvalid)
  rw [← ht₂] at hexec
  rw [hcount] at hok herror
  constructor
  · rintro ⟨p', t₁, p₁, hp', hstep, hp₁, hcycles, -⟩
    obtain rfl : p = p' := Option.some.inj (hp.symm.trans hp')
    rw [hexec] at hstep
    have htwo : 2 ≤ (niceUart h' op).cycles.toNat := by
      by_contra hfew
      rw [herror (by omega)] at hstep
      cases hstep
    rw [advanceNice_numTotalCycles hstep hp₁, hcount, hpipeline, BitVec.add_right_inj] at hcycles
    cases hport : usesUart env op with
    | true => exact ⟨rfl, huart hport ▸ htwo⟩
    | false =>
      -- the cycles of an earlier report would be added once more
      rw [hsoft hport] at hcycles
      have heq := congrArg BitVec.toNat hcycles
      have hbyte := (niceUart h' op).cycles.isLt
      simp only [BitVec.toNat_ofNat] at heq
      omega
  · rintro ⟨hport, htwo⟩
    rw [← huart hport] at htwo
    obtain ⟨p₁, hvalid₁, hadvance⟩ := hok htwo
    obtain ⟨p₂, hp₂, -⟩ := hvalid₁.advance (show (0 : ℤ) < 1 by omega)
    refine ⟨p, _, p₂, hp, hexec.trans hadvance, hp₂, ?_, fun h₁ hupdate => ?_⟩
    · rw [advanceNice_numTotalCycles hadvance hp₂, hcount, hpipeline, huart hport]
    · rw [performanceAndSyncUpdate_eq env hp₂ hupdate, countInstr_lastCycles env hupdate, ← hlast]

end

/-- The platform with a coprocessor that answers each request with zero after five cycles. -/
def Env.fiveCycles : Env BareMemory :=
  { Env.bare with
    nice := { Env.bare.nice with sm3NiceUart := true }
    serial := fun _ w => ([some [0, 0, 0, 0, 5]], w) }

theorem fiveCycles_accounted : CyclesAccounted Env.fiveCycles (onlyInstr 0x0202F37B)
    (.ofWord 0x0202F37B) .sm3p0 5 := by
  have hfetch : fetch Env.fiveCycles (onlyInstr 0x0202F37B).hart = .ok () _ := rfl
  refine (cyclesAccounted_iff (Pipeline.valid_empty 0) hfetch rfl rfl rfl ?_).2 ⟨rfl, ?_⟩
  · rfl
  · decide

/-- In software, `sm3p0` takes one cycle, but the instruction asks for minus one and fails. -/
theorem software_not_accounted : ¬CyclesAccounted Env.bare (onlyInstr 0x0202F37B)
    (.ofWord 0x0202F37B) .sm3p0 1 := by
  rintro ⟨p, t₁, p₁, -, hstep, -⟩
  cases hstep

end Vcil.Iss
