import Vcil.Iss.Frames
import Vcil.Iss.TrapNesting

/-!
# Instructions that trap

After a trap, software can remove its cause and return to the instruction, which then executes anew.
That needs the operands of the first time: what an instruction writes to registers or memory, it has
to write after the last check that can fail.  `SC.W` presets its result, and a counter is read to `rd`
before the check of its write.

* `Kept`, `Env.KeepsMemory`: what has to be as before, and what the platform says about memory;
* `Early`, `undone_staged`: the parts before a trap, and the instructions put together in stages;
* `Settable`, `CsrToRd`: the CSR instructions, whose read makes the checks of the write;
* `Preset`, `undone_exec`: an instruction that traps has kept registers and memory but for that;
* `Restartable`, `restartable_of_trap`: the same with fetch and the entry into the handler.
-/

-- the store-conditional is a chain of eight calls, each an instance
set_option synthInstance.maxSize 512

namespace Vcil.Iss

open Fallible

variable {W μ : Type} {env : Env W}

/-! ### What is kept -/

/-- The floating-point registers, the memory and the address of the instruction; `mem` is the memory in
the state of the platform. -/
structure Snapshot (μ : Type) where
  fpRegs : RegIdx → BitVec 64
  memory : μ
  lastPc : Word

def Hart.snapshot (mem : W → μ) (h : Hart W) : Snapshot μ :=
  ⟨h.fpRegs, mem h.outside, h.lastPc⟩

/-- The snapshot is as before, and so is every register, unless it holds a value that `P` allows. -/
structure Kept (mem : W → μ) (P : RegIdx → Word → Prop) (h h' : Hart W) : Prop where
  regs : ∀ r, h'.regs r = h.regs r ∨ P r (h'.regs r)
  snapshot : h'.snapshot mem = h.snapshot mem

instance (mem : W → μ) (P : RegIdx → Word → Prop) : IsPreorder (Hart W) (Kept mem P) where
  refl _ := ⟨fun _ => .inl rfl, rfl⟩
  trans h h' h'' h₁ h₂ := by
    refine ⟨fun r => ?_, h₂.snapshot.trans h₁.snapshot⟩
    rcases h₂.regs r with hr | hr
    · rw [hr]
      exact h₁.regs r
    · exact .inr hr

/-- Loads, the unlock of the bus and the timer leave memory alone, and so do stores and system calls
that raise a trap. -/
structure Env.KeepsMemory (env : Env W) (mem : W → μ) : Prop where
  reads : ∀ {α : Type} {f : Access W α}, env.Reads f → ∀ view w, mem (f view w).2.rest = mem w.rest
  stores : ∀ {α : Type} {f : Access W α}, env.Stores f → ∀ view w e w',
    f view w = (.error (.trap e), w') → mem w'.rest = mem w.rest
  mtime : ∀ w, mem (env.updateAndGetMtime w).2.rest = mem w.rest

/-- Parts that come before a trap: they keep registers and memory, or preset a register to a value that
`P` allows. -/
inductive Early (env : Env W) (P : RegIdx → Word → Prop) : (α : Type) → M W α → Prop
  | keep {α : Type} {m : M W α} (h : Keep env α m) : Early env P α m
  | preset {r : RegIdx} {v : Word} (h : P r v) : Early env P Unit (setReg r v)

instance (env : Env W) (P : RegIdx → Word → Prop) : Covers env (Early env P) :=
  ⟨fun h => .keep (.quiet h)⟩

section

variable {mem : W → μ} {P : RegIdx → Word → Prop} {α : Type} {m : M W α}

instance [h : Made (Keep env) m] : Made (Early env P) m := h.trans fun h => .part (.keep h)

theorem kept_modify {f : Hart W → Hart W} (hregs : ∀ h, (f h).regs = h.regs)
    (hsnapshot : ∀ h, (f h).snapshot mem = h.snapshot mem) :
    Respects (Kept mem P) (modify f : M W Unit) := by
  refine .modify fun h => ⟨fun r => .inl ?_, hsnapshot h⟩
  rw [hregs]

theorem kept_setReg {r : RegIdx} {v : Word} (hP : P r v) :
    Respects (Kept mem P) (setReg r v : M W Unit) := by
  refine .modify fun h => ⟨fun r' => ?_, rfl⟩
  by_cases hr : r' = r
  · subst hr
    refine .inr ?_
    show P r' (Function.update h.regs r' v r')
    rwa [Function.update_self]
  · exact .inl (Function.update_of_ne hr _ _)

theorem kept_setWorld {h : Hart W} {w : World W} (hmem : mem w.rest = mem h.outside) :
    Kept mem P h (h.setWorld w) := by
  refine ⟨fun r => .inl rfl, ?_⟩
  show (⟨h.fpRegs, mem w.rest, h.lastPc⟩ : Snapshot μ) = _
  rw [hmem]
  rfl

theorem kept_quiet (hm : Quiet env α m) : Respects (Kept mem P) m := by
  cases hm with
  | get => infer_instance
  | abort e htrap hlevel => infer_instance
  | _ => exact kept_modify (fun _ => rfl) fun _ => rfl

variable (hmem : env.KeepsMemory mem)

include hmem

theorem kept_read {f : Access W α} (hf : env.Reads f) : Respects (Kept mem P) (access f) := by
  constructor
  intro h
  have hw := hmem.reads hf h.memView h.world
  unfold access
  split
  · rename_i a w heq
    rw [heq] at hw
    exact kept_setWorld hw
  · rename_i e w heq
    rw [heq] at hw
    exact kept_setWorld hw

theorem kept_keep (hm : Keep env α m) : Respects (Kept mem P) m := by
  cases hm with
  | quiet hm => exact kept_quiet hm
  | trap e => infer_instance
  | ecallTrap =>
    unfold ecallTrap raiseTrap unknownPrivilegeLevel
    infer_instance
  | read f hf => exact kept_read hmem hf
  | mtime => exact .modify fun h => kept_setWorld (hmem.mtime h.world)
  | jump f =>
    constructor
    intro h
    rw [jump_eq]
    split <;> exact ⟨fun _ => .inl rfl, rfl⟩

theorem kept_early (hm : Early env P α m) : Respects (Kept mem P) m := by
  cases hm with
  | keep hm => exact kept_keep hmem hm
  | preset hP => exact kept_setReg hP

theorem undone_last (hm : Last env α m) : Undone (Kept mem P) IsTrap m := by
  cases hm with
  | store f hf =>
    rintro h e h' hr ⟨trap, rfl⟩
    obtain ⟨w, hcall, rfl⟩ := access_eq_error.1 hr
    exact kept_setWorld (hmem.stores hf _ _ _ _ hcall)

theorem kept_fetch : Respects (Kept mem P) (fetch env) := by
  refine made_fetch.respects fun hm => ?_
  cases hm with
  | loadInstr =>
    constructor
    intro h
    obtain ⟨op, instr, hfinal⟩ := loadInstr_final env h
    have hload := hmem.reads (.loadInstr h.pc) h.memView h.world
    rw [hfinal]
    exact ⟨fun r => .inl rfl, (kept_setWorld (P := P) hload).snapshot⟩
  | decode f => exact kept_modify (fun _ => rfl) fun _ => rfl
  | _ => infer_instance

/-! ### Instructions in stages -/

omit hmem in
theorem timed_kept {K : (α : Type) → M W α → Prop}
    (hK : ∀ {α : Type} {m : M W α}, K α m → Respects (Kept mem P) m) {m : PM W α}
    (hm : Made (Timed env K) m) : Respects (OnHart (Kept mem P)) m :=
  hm.respects fun hm => hm.respects hK fun _ t => refl_of (Kept mem P) t.hart

omit hmem in
theorem timed_avoids_trap {m : PM W α} (hm : Made (Timed env (Free env)) m) :
    Avoids IsTrap m := by
  refine hm.avoids fun hm t e t' hr => ?_
  cases hm with
  | lift hm =>
    obtain ⟨h', hr, -⟩ := lift_error hr
    exact (free_error hm hr).1
  | get => cases hr
  | charge call h =>
    rw [(charge_error hr).1]
    rintro ⟨trap, he⟩
    cases he
  | amoCharge i => cases hr

theorem undone_staged {K : (α : Type) → M W α → Prop}
    (hK : ∀ {α : Type} {m : M W α}, K α m → Respects (Kept mem P) m) {m : PM W α}
    (hm : Staged (Timed env K) (Timed env (Last env)) (Timed env (Free env)) m) :
    Undone (OnHart (Kept mem P)) IsTrap m := by
  refine hm.undone (fun hm => timed_kept hK (.part hm)) (fun hm => ?_)
    fun hm => timed_avoids_trap (.part hm)
  cases hm with
  | lift hm =>
    intro t e t' hr hT
    obtain ⟨h', hstore, rfl⟩ := lift_error hr
    exact undone_last hmem hm t.hart e h' hstore hT
  | get => exact .of_respects inferInstance
  | charge call h => exact .of_respects inferInstance
  | amoCharge i =>
    intro t e t' hr
    cases hr

end

/-! ### CSR accesses -/

/-- The registers that are read without a check of their address, and written only after one. -/
def IsCounter (name : CsrName) : Prop :=
  name = .time ∨ name = .timeh ∨ name = .mcycle ∨ name = .mcycleh ∨ name = .minstret ∨
    name = .minstreth

/-- A write passes the checks of `set_csr_value`. -/
def Settable (env : Env W) (addr : CsrAddr) (h : Hart W) : Prop :=
  (csrName env addr = .satp → Mstatus.tvm.isSet h.csrs.mstatus = false) ∧
    (csrName env addr = .other → env.isValidCsr32Addr addr = true)

section

variable {cycles : M W (BitVec 64)} {addr : CsrAddr} {h h' : Hart W}

theorem getCsrValue_settable {v : Word} (hr : getCsrValue env cycles addr h = .ok v h') :
    Settable env addr h' := by
  obtain ⟨_, h₁, -, hread⟩ := bind_eq_ok.1 hr
  have hdefault {h₁ : Hart W} (hread : readDefault env addr h₁ = .ok v h') :
      env.isValidCsr32Addr addr = true ∧ h' = h₁ := by
    obtain ⟨_, h₂, hcheck, hvalue⟩ := bind_eq_ok.1 hread
    obtain ⟨hvalid, rfl⟩ := illegalIf_ok hcheck
    cases hvalue
    exact ⟨by simpa using hvalid, rfl⟩
  constructor
  · intro hname
    simp only [hname] at hread
    obtain ⟨_, h₂, hcheck, hsatp⟩ := bind_eq_ok.1 hread
    rw [(hdefault hsatp).2, (illegalIf_ok hcheck).2]
    exact (illegalIf_ok hcheck).1
  · intro hname
    simp only [hname] at hread
    exact (hdefault hread).1

theorem setCsrValue_ok (hset : Settable env addr h) (hcounter : ¬IsCounter (csrName env addr))
    (value : Word) (e : Raise) : setCsrValue env addr value h ≠ .error e h' := by
  intro hr
  unfold setCsrValue at hr
  cases hname : csrName env addr <;> simp only [hname] at hr
  case satp =>
    rw [illegalIf_bind, hset.1 hname] at hr
    cases hr
  case other =>
    rw [illegalIf_bind, hset.2 hname] at hr
    cases hr
  all_goals first
    | cases hr
    | simp [IsCounter, hname] at hcounter

end

/-- The read of a CSR and the write of its value to `rd`, in either build. -/
structure CsrToRd {σ : Type} (R : σ → σ → Prop) (hart : σ → Hart W) (env : Env W) (addr : CsrAddr)
    (read : EStateM Raise σ Word) (write : Word → EStateM Raise σ Unit) : Prop where
  respects : Respects R read
  checked : ∀ s v s', read s = .ok v s' → Settable env addr (hart s')
  avoids : ∀ v, Avoids IsTrap (write v)
  csrs : ∀ v, Respects (fun s s' => (hart s').csrs = (hart s).csrs) (write v)

section

variable {σ : Type} {R : σ → σ → Prop} [IsPreorder σ R] {hart : σ → Hart W} {addr : CsrAddr}
  {read value : EStateM Raise σ Word} {write set : Word → EStateM Raise σ Unit}
  {check : EStateM Raise σ Bool} {raise toRd : EStateM Raise σ Unit}
  {setRd : Word → EStateM Raise σ Unit} {c : Prop} [Decidable c]

/-- The CSR is written last, where its checks have been passed. -/
theorem CsrToRd.undone (hto : CsrToRd R hart env addr read write)
    (hset : ∀ v s e s', Settable env addr (hart s) → set v s ≠ .error e s') :
    Undone R IsTrap (read >>= fun v => write v >>= fun _ => set v) := by
  refine .checked (S := fun s => Settable env addr (hart s)) hto.respects hto.checked hto.avoids ?_ ?_
  · intro v s u s' hr hs
    have hkept := (hto.csrs v).rel s
    rw [hr] at hkept
    unfold Settable at hs ⊢
    rwa [show (hart s').csrs = (hart s).csrs from hkept]
  · intro v u s e s' hs hr
    exact absurd hr (hset v s e s' hs)

/-- The shape of `csrWritePlain` and `csrWritePipeline`. -/
theorem CsrToRd.undone_write (hto : CsrToRd R hart env addr read write)
    (htoRd : toRd = if c then read >>= write else pure ()) (hcheck : Respects R check)
    (hraise : Respects R raise) (hvalue : Respects R value) (hset : ∀ v, Respects R (set v))
    (hcounter : c → IsCounter (csrName env addr) → ∀ v, Respects R (write v))
    (hsettable : ¬IsCounter (csrName env addr) →
      ∀ v s e s', Settable env addr (hart s) → set v s ≠ .error e s') :
    Undone R IsTrap (do
      if ← check then raise
      else do
        let v ← value
        toRd
        set v) := by
  subst htoRd
  refine .guarded hcheck hraise (.afterKeep hvalue fun v => ?_)
  by_cases hc : c
  · rw [if_pos hc, bind_assoc]
    by_cases hname : IsCounter (csrName env addr)
    · refine .afterKeep hto.respects fun a => .afterKeep (hcounter hc hname a) fun _ => ?_
      exact .of_respects (hset v)
    · exact hto.undone fun _ => hsettable hname v
  · rw [if_neg hc]
    exact .afterKeep inferInstance fun _ => .of_respects (hset v)

/-- The shape of `csrChangePlain` and `csrChangePipeline`. -/
theorem CsrToRd.undone_change (hto : CsrToRd R hart env addr read write)
    (hsetRd : ∀ v, setRd v = if c then write v else pure ()) (hcheck : Respects R check)
    (hraise : Respects R raise) (hvalue : Respects R value) (hset : ∀ v, Respects R (set v))
    (w : Bool) (f : Word → Word → Word)
    (hcounter : c → IsCounter (csrName env addr) → w = true → ∀ v, Respects R (write v))
    (hsettable : ¬IsCounter (csrName env addr) →
      ∀ v s e s', Settable env addr (hart s) → set v s ≠ .error e s') :
    Undone R IsTrap (do
      if ← check then raise
      else do
        let v ← value
        let csrVal ← read
        setRd csrVal
        if w then set (f csrVal v) else pure ()) := by
  obtain rfl : setRd = fun v => if c then write v else pure () := funext hsetRd
  refine .guarded hcheck hraise (.afterKeep hvalue fun v => ?_)
  have hlast (a : Word) : Respects R (if w then set (f a v) else pure ()) := by
    have := hset (f a v)
    infer_instance
  by_cases hc : c
  · simp only [if_pos hc]
    by_cases hname : IsCounter (csrName env addr) ∧ w = true
    · refine .afterKeep hto.respects fun a => .afterKeep (hcounter hc hname.1 hname.2 a) fun _ => ?_
      exact .of_respects (hlast a)
    · refine hto.undone fun a s e s' hs hr => ?_
      by_cases hw : w = true
      · rw [if_pos hw] at hr
        exact hsettable (fun hcounter => hname ⟨hcounter, hw⟩) _ s e s' hs hr
      · rw [if_neg hw] at hr
        cases hr
  · simp only [if_neg hc]
    exact .afterKeep hto.respects fun a => .afterKeep inferInstance fun _ => .of_respects (hlast a)

end

section

variable {mem : W → μ} {P : RegIdx → Word → Prop} (i : Instruction) (hmem : env.KeepsMemory mem)

include hmem

theorem csrToRdPlain_spec :
    CsrToRd (Kept mem P) id env i.csr (csrValuePlain env i.csr) fun v => setReg i.rd v := by
  have hread : Made (Keep env) (csrValuePlain env i.csr) :=
    inferInstanceAs (Made (Keep env) (getCsrValue env computeAndGetCurrentCycles i.csr))
  have hwrite (v : Word) : Made (Free env) (setReg i.rd v : M W Unit) := inferInstance
  constructor
  · exact hread.respects (kept_keep hmem)
  · exact fun h v h' hr => getCsrValue_settable hr
  · exact fun v => (hwrite v).avoids fun hm _ _ _ hr => (free_error hm hr).1
  · exact fun v => .modify fun h => rfl

theorem csrToRdPipeline_spec :
    CsrToRd (OnHart (Kept mem P)) TimedHart.hart env i.csr (csrValuePipeline env i.csr)
      fun v => (do write i.rd v; charge fun p => p.doCsr i.rd.toNat) := by
  have hread : Made (Timed env (Keep env)) (csrValuePipeline env i.csr) := inferInstance
  have hwrite (v : Word) : Made (Timed env (Free env))
      (do write i.rd v; charge fun p => p.doCsr i.rd.toNat : PM W Unit) := inferInstance
  constructor
  · exact timed_kept (kept_keep hmem) hread
  · intro t v t' hr
    obtain ⟨_, _, hget, hr⟩ := bind_eq_ok.1 hr
    cases hget
    obtain ⟨h', hvalue, rfl⟩ := lift_ok hr
    exact getCsrValue_settable hvalue
  · exact fun v => timed_avoids_trap (hwrite v)
  · intro v
    have hset : Respects (Unchanged Hart.csrs) (setReg i.rd v : M W Unit) := .modify fun h => rfl
    have hwrite : Respects (OnHart (Unchanged Hart.csrs)) (write i.rd v : PM W Unit) := by
      unfold write accessRegister
      infer_instance
    exact (inferInstance : Respects (OnHart (Unchanged Hart.csrs)) (do
      write i.rd v
      charge fun p => p.doCsr i.rd.toNat : PM W Unit))

/-! ### Instructions -/

omit hmem in
theorem kept_rdPipeline {v : Word} (hP : P i.rd v) : Respects (OnHart (Kept mem P))
    (do write i.rd v; charge fun p => p.doCsr i.rd.toNat : PM W Unit) := by
  have : Respects (Kept mem P) (setReg i.rd v : M W Unit) := kept_setReg hP
  unfold write accessRegister
  infer_instance

section

variable (hP : i.rd ≠ 0 → IsCounter (csrName env i.csr) → ∀ v, P i.rd v)

include hP

theorem undone_csrWritePlain {value : M W Word} (hvalue : Made (Keep env) value) :
    Undone (Kept mem P) IsTrap (csrWritePlain env i value) := by
  have hkept {α : Type} {m : M W α} (hm : Made (Keep env) m) : Respects (Kept mem P) m :=
    hm.respects (kept_keep hmem)
  exact (csrToRdPlain_spec i hmem).undone_write rfl (hkept inferInstance) (hkept inferInstance)
    (hkept hvalue) (fun v => hkept inferInstance) (fun hrd hname v => kept_setReg (hP hrd hname v))
    fun hname v h e h' hs => setCsrValue_ok hs hname v e

theorem undone_csrWritePipeline {value : PM W Word} (hvalue : Made (Timed env (Keep env)) value) :
    Undone (OnHart (Kept mem P)) IsTrap (csrWritePipeline env i value) := by
  have hkept {α : Type} {m : PM W α} (hm : Made (Timed env (Keep env)) m) :
      Respects (OnHart (Kept mem P)) m := timed_kept (kept_keep hmem) hm
  refine (csrToRdPipeline_spec i hmem).undone_write rfl (hkept inferInstance) (hkept inferInstance)
    (hkept hvalue) (fun v => hkept inferInstance)
    (fun hrd hname v => kept_rdPipeline i (hP hrd hname v)) fun hname v t e t' hs hr => ?_
  obtain ⟨h', hset, -⟩ := lift_error hr
  exact setCsrValue_ok hs hname v e hset

end

section

variable {w : Bool} (hP : i.rd ≠ 0 → IsCounter (csrName env i.csr) → w = true → ∀ v, P i.rd v)
  (f : Word → Word → Word)

include hP

theorem undone_csrChangePlain {value : M W Word} (hvalue : Made (Keep env) value) :
    Undone (Kept mem P) IsTrap (csrChangePlain env i w value f) := by
  have hkept {α : Type} {m : M W α} (hm : Made (Keep env) m) : Respects (Kept mem P) m :=
    hm.respects (kept_keep hmem)
  exact (csrToRdPlain_spec i hmem).undone_change (fun _ => rfl) (hkept inferInstance)
    (hkept inferInstance) (hkept hvalue) (fun v => hkept inferInstance) w f
    (fun hrd hname hw v => kept_setReg (hP hrd hname hw v))
    fun hname v h e h' hs => setCsrValue_ok hs hname v e

theorem undone_csrChangePipeline (checked : Bool) {value : PM W Word}
    (hvalue : Made (Timed env (Keep env)) value) :
    Undone (OnHart (Kept mem P)) IsTrap (csrChangePipeline env i checked w value f) := by
  have hkept {α : Type} {m : PM W α} (hm : Made (Timed env (Keep env)) m) :
      Respects (OnHart (Kept mem P)) m := timed_kept (kept_keep hmem) hm
  have hset (v : Word) : Respects (OnHart (Kept mem P)) (lift (setCsrValue env i.csr v)) :=
    hkept inferInstance
  refine (csrToRdPipeline_spec i hmem).undone_change (fun _ => rfl) (hkept inferInstance)
    (hkept inferInstance) (hkept hvalue) hset w f
    (fun hrd hname hw v => kept_rdPipeline i (hP hrd hname hw v)) fun hname v t e t' hs hr => ?_
  obtain ⟨h', herror, -⟩ := lift_error hr
  exact setCsrValue_ok hs hname v e herror

end

omit hmem in
theorem staged_scW (hP : P i.rd 1) (b : Build) :
    Staged (Timed env (Early env P)) (Timed env (Last env)) (Timed env (Free env))
      (exec env b i .scW) := by
  cases b with
  | plain =>
    have hpreset : Made (Early env P) (setReg i.rd 1) := .part (.preset hP)
    have hstore (addr v : Word) : Staged (Early env P) (Last env) (Free env)
        (access (env.atomicStoreConditionalWord addr v)) := .last (.store _ inferInstance)
    have hsc : Staged (Early env P) (Last env) (Free env) (scWPlain env i) := by
      unfold scWPlain
      infer_instance
    exact staged_lift hsc
  | pipeline =>
    have hpreset : Made (Timed env (Early env P)) (write i.rd 1) := by
      have : Made (Early env P) (setReg i.rd 1) := .part (.preset hP)
      unfold write
      infer_instance
    have hstore (addr v : Word) :
        Staged (Timed env (Early env P)) (Timed env (Last env)) (Timed env (Free env))
          (lift (access (env.atomicStoreConditionalWord addr v))) :=
      .last (.lift (.store _ inferInstance))
    show Staged _ _ _ (scWPipeline env i)
    unfold scWPipeline
    infer_instance

omit hmem in
theorem undone_lift {m : M W Unit} (hm : Undone (Kept mem P) IsTrap m) :
    Undone (OnHart (Kept mem P)) IsTrap (lift m) := by
  intro t e t' hr hT
  obtain ⟨h', hr', rfl⟩ := lift_error hr
  exact hm t.hart e h' hr' hT

omit hmem in
theorem undone_return (b : Build) {op : Opcode} (hop : IsReturn op) :
    Undone (OnHart (Kept mem P)) IsTrap (exec env b i op) := by
  rw [exec_return env b i hop]
  refine undone_lift fun h e h' hr _ => ?_
  rcases return_cases env i hop h with ⟨m, -, hleave⟩ | hillegal
  · rw [hleave] at hr
    cases hr
  · rw [hillegal] at hr
    cases hr
    exact refl_of (Kept mem P) h

end

/-- What an instruction that traps may have left in `r`: `SC.W` presets failure, and a counter is in
`rd` before its address is checked. -/
def Preset (env : Env W) (i : Instruction) (op : Opcode) (r : RegIdx) (v : Word) : Prop :=
  r = i.rd ∧ (op = .scW ∧ v = 1 ∨ WritesCsr i op ∧ i.rd ≠ 0 ∧ IsCounter (csrName env i.csr))

section

variable {mem : W → μ} (hmem : env.KeepsMemory mem) (b : Build) (i : Instruction) {op : Opcode}

include hmem

theorem undone_csrInstr (hop : IsCsr op) :
    Undone (OnHart (Kept mem (Preset env i op))) IsTrap (exec env b i op) := by
  have hpreset (hw : WritesCsr i op) (hrd : i.rd ≠ 0) (hname : IsCounter (csrName env i.csr))
      (v : Word) : Preset env i op i.rd v := ⟨rfl, .inr ⟨hw, hrd, hname⟩⟩
  have hrs1 {op' : Opcode} (hop' : op' = .csrrs ∨ op' = .csrrc) (hrd : i.rd ≠ 0)
      (hname : IsCounter (csrName env i.csr)) (hw : decide (i.rs1 ≠ 0) = true) (v : Word) :
      Preset env i op' i.rd v :=
    ⟨rfl, .inr ⟨.inr (.inr (.inl ⟨hop', of_decide_eq_true hw⟩)), hrd, hname⟩⟩
  have hzimm {op' : Opcode} (hop' : op' = .csrrsi ∨ op' = .csrrci) (hrd : i.rd ≠ 0)
      (hname : IsCounter (csrName env i.csr)) (hw : decide (i.zimm ≠ 0) = true) (v : Word) :
      Preset env i op' i.rd v :=
    ⟨rfl, .inr ⟨.inr (.inr (.inr ⟨hop', of_decide_eq_true hw⟩)), hrd, hname⟩⟩
  cases b with
  | plain =>
    refine undone_lift ?_
    rcases hop with rfl | rfl | rfl | rfl | rfl | rfl
    · exact undone_csrWritePlain i hmem (hpreset (.inl rfl)) inferInstance
    · exact undone_csrChangePlain i hmem (hrs1 (.inl rfl)) _ inferInstance
    · exact undone_csrChangePlain i hmem (hrs1 (.inr rfl)) _ inferInstance
    · exact undone_csrWritePlain i hmem (hpreset (.inr (.inl rfl))) inferInstance
    · exact undone_csrChangePlain i hmem (hzimm (.inl rfl)) _ inferInstance
    · exact undone_csrChangePlain i hmem (hzimm (.inr rfl)) _ inferInstance
  | pipeline =>
    rcases hop with rfl | rfl | rfl | rfl | rfl | rfl
    · exact undone_csrWritePipeline i hmem (hpreset (.inl rfl)) inferInstance
    · exact undone_csrChangePipeline i hmem (hrs1 (.inl rfl)) _ _ inferInstance
    · exact undone_csrChangePipeline i hmem (hrs1 (.inr rfl)) _ _ inferInstance
    · exact undone_csrWritePipeline i hmem (hpreset (.inr (.inl rfl))) inferInstance
    · exact undone_csrChangePipeline i hmem (hzimm (.inl rfl)) _ _ inferInstance
    · exact undone_csrChangePipeline i hmem (hzimm (.inr rfl)) _ _ inferInstance

/-- An instruction that traps has kept registers and memory, but for what it presets. -/
theorem undone_exec (hamo : amoOperation op = none) :
    Undone (OnHart (Kept mem (Preset env i op))) IsTrap (exec env b i op) := by
  by_cases hreturn : IsReturn op
  · exact undone_return i b hreturn
  by_cases hcsr : IsCsr op
  · exact undone_csrInstr hmem b i hcsr
  by_cases hsc : op = .scW
  · subst hsc
    exact undone_staged hmem (kept_early hmem) (staged_scW i ⟨rfl, .inl ⟨rfl, rfl⟩⟩ b)
  · exact undone_staged hmem (kept_keep hmem) (staged_exec b i ⟨hreturn, hcsr, hsc, hamo⟩)

end

/-! ### The whole step -/

/-- After a trap, registers and memory are as before the instruction, and so they are in the handler,
which returns to the instruction; a register may hold what `P` allows. -/
def Restartable (env : Env W) (b : Build) (mem : W → μ) (P : RegIdx → Word → Prop)
    (t : TimedHart W) : Prop :=
  ∀ e t₁, execStep env b { t with hart := startInstr t.hart } = .error (.trap e) t₁ →
    Kept mem P (startInstr t.hart) t₁.hart ∧
      ∀ h, catchTrap env (.trap e) t₁.hart = .ok () h →
        Kept mem P (startInstr t.hart) h ∧ ∃ m : Mode, h.prv = m.level ∧ h.csrs.epc m = t.hart.pc

/-- What the instruction at `pc` may preset. -/
def presets (env : Env W) (h : Hart W) (r : RegIdx) (v : Word) : Prop :=
  ∃ h', fetch env h = .ok () h' ∧ Preset env h'.instr h'.op r v

section

variable {mem : W → μ} {P Q : RegIdx → Word → Prop}

theorem Kept.mono {h h' : Hart W} (hkept : Kept mem P h h') (hPQ : ∀ r v, P r v → Q r v) :
    Kept mem Q h h' := ⟨fun r => (hkept.regs r).imp id (hPQ r _), hkept.snapshot⟩

/-- The entry into a handler keeps registers and memory, and saves `pc`. -/
theorem Entry.kept (hmem : env.KeepsMemory mem) {m : Mode} {pc : Word} {h h' : Hart W}
    (he : Entry env m pc h h') : Kept mem P h h' ∧ h'.csrs.epc m = pc := by
  obtain ⟨c, -, -, -, -, rfl⟩ := he.eq_enter
  have hunlock := hmem.reads .atomicUnlock h.memView h.world
  constructor
  · exact ⟨fun r => .inl rfl, (kept_setWorld (P := P) hunlock).snapshot⟩
  · cases m <;> rfl

/-- Every instruction but the atomic operations is restartable, up to what it presets. -/
theorem restartable_of_trap (b : Build) (hmem : env.KeepsMemory mem) {t : TimedHart W}
    (hamo : ∀ h, fetch env (startInstr t.hart) = .ok () h → amoOperation h.op = none) :
    Restartable env b mem (presets env (startInstr t.hart)) t := by
  intro e t₁ hr
  have hkept : Kept mem (presets env (startInstr t.hart)) (startInstr t.hart) t₁.hart := by
    have hfetched := (kept_fetch (P := presets env (startInstr t.hart)) hmem).rel (startInstr t.hart)
    rw [execStep_eq] at hr
    cases hf : fetch env (startInstr t.hart) with
    | ok u h =>
      simp only [hf] at hr hfetched
      have hundone := undone_exec hmem b h.instr (hamo h hf) _ _ _ hr ⟨e, rfl⟩
      exact trans_of (Kept mem _) hfetched (Kept.mono hundone fun r v hv => ⟨h, hf, hv⟩)
    | error e' h =>
      simp only [hf] at hr hfetched
      cases hr
      exact hfetched
  refine ⟨hkept, fun h hcatch => ?_⟩
  obtain ⟨m, he⟩ := catchTrap_entry hcatch
  obtain ⟨hentry, hepc⟩ := he.kept hmem
  refine ⟨trans_of (Kept mem _) hkept hentry, m, he.prv, ?_⟩
  rw [hepc]
  exact congrArg Snapshot.lastPc hkept.snapshot

end

/-! ### Bare memory -/

theorem keepsMemory_bare : Env.bare.KeepsMemory id where
  reads hf := by
    cases hf <;> (intro view w; rfl)
  stores hf := by
    cases hf <;> first
      | (intro view w e w' hr; cases hr)
      | cases ‹Env.bare.executeSyscall = some _›
  mtime _ := rfl

/-- A hart on `LR.W`, with a misaligned address in `rs1`. -/
def misalignedLr : TimedHart BareMemory :=
  let h := Hart.reset machineMode 0x00140101 0 fun _ => 0x100322AF
  ⟨{ h with regs := Function.update h.regs 6 0x102, pc := 0x400 }, .empty 0⟩

theorem restartable_misalignedLr :
    Restartable Env.bare .plain id (presets Env.bare (startInstr misalignedLr.hart)) misalignedLr ∧
      ∃ t, execStep Env.bare .plain { misalignedLr with hart := startInstr misalignedLr.hart } =
        .error (.trap ⟨4, 0x102⟩) t := by
  constructor
  · refine restartable_of_trap .plain keepsMemory_bare fun h hf => ?_
    cases hf
    rfl
  · exact ⟨_, rfl⟩

/-- Bare memory on which a store-conditional faults. -/
def Env.bareFaulting : Env BareMemory :=
  { Env.bare with
    decodeNormal := fun i =>
      if i.data.extractLsb' 0 7 = 0b0101111 ∧ i.data.extractLsb' 27 5 = 0b00011 then .scW
      else bareDecode i
    atomicStoreConditionalWord := fun addr _ _ w => (.error (.trap ⟨7, addr.setWidth 64⟩), w) }

/-- A hart on `SC.W`, with `x1` as `rd`. -/
def faultingSc : TimedHart BareMemory :=
  let h := Hart.reset machineMode 0x00140101 0 fun _ => 0x183120AF
  ⟨{ h with pc := 0x400 }, .empty 0⟩

theorem keepsMemory_bareFaulting : Env.bareFaulting.KeepsMemory id where
  reads hf := by
    cases hf <;> (intro view w; rfl)
  stores hf := by
    cases hf <;> first
      | (intro view w e w' hr; cases hr <;> rfl)
      | cases ‹Env.bareFaulting.executeSyscall = some _›
  mtime _ := rfl

/-- The preset result is left in `rd`. -/
theorem not_restartable_faultingSc : Env.bareFaulting.KeepsMemory id ∧
    ¬Restartable Env.bareFaulting .plain id (fun _ _ => False) faultingSc := by
  refine ⟨keepsMemory_bareFaulting, fun hrestartable => ?_⟩
  obtain ⟨hkept, -⟩ := hrestartable ⟨7, 0⟩ _ rfl
  rcases hkept.regs 1 with hsame | hpreset
  · exact absurd hsame (by decide)
  · exact hpreset

end Vcil.Iss
