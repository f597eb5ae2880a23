import Vcil.Lib.BoundedStack
import Vcil.Timing.BranchPredictor

/-!
# Calls and returns

Traces of `do_call` and `do_ret` in which every return goes to the link address of its call.  The
return address stack is then a window of the link addresses that are outstanding.

* `Transfer`, `BranchPredictor.transfer`, `BranchPredictor.run`: the calls of the predictor;
* `outstanding`: the link addresses that a trace leaves outstanding, `none` where a return does not
  match;
* `Predicts`: the window, and what follows from it for the returns to come;
* `predicts_of_run`: the predictor after any trace from an empty stack.
-/

namespace Vcil.Timing

open BoundedStack (Window)

/-- A call or a return, with the arguments of `do_call` and `do_ret`. -/
inductive Transfer
  | call (lastPc pc link : BitVec 64)
  | ret (lastPc pc link : BitVec 64)
  deriving DecidableEq, Repr

/-- The transfer is a return. -/
def Transfer.isRet : Transfer → Bool
  | .call .. => false
  | .ret .. => true

/-- Each transfer with the timing model it finds. -/
abbrev Trace := List (Transfer × Pipeline)

namespace BranchPredictor

variable (b : BranchPredictor)

/-- The call of the predictor that follows the transfer. -/
def transfer (p : Pipeline) : Transfer → Option (BranchPredictor × Pipeline)
  | .call lastPc pc link => b.doCall p lastPc pc link
  | .ret lastPc pc link => b.doRet p lastPc pc link

/-- The predictor after a trace, the pipelines aside. -/
def run (tr : Trace) : Option BranchPredictor :=
  tr.foldlM (fun b x => (b.transfer x.2 x.1).map Prod.fst) b

/-- The transfer takes no penalty path. -/
def Free (p : Pipeline) (x : Transfer) : Prop :=
  ∃ b', b.transfer p x = some (b', p) ∧ b'.btb = b.btb

end BranchPredictor

/-- The outstanding link addresses after a transfer, the newest last. -/
def Transfer.next (out : List (BitVec 64)) : Transfer → Option (List (BitVec 64))
  | .call _ _ link => some (out ++ [link])
  | .ret _ pc _ => if out.getLast? = some pc then some out.dropLast else none

/-- The link addresses outstanding after a trace. -/
def outstanding (tr : Trace) : Option (List (BitVec 64)) :=
  tr.foldlM (fun out x => x.1.next out) []

/-- Nested calls, nowhere deeper than the return address stack. -/
def Shallow (tr : Trace) : Prop := ∀ before after, tr = before ++ after →
  ∃ out, outstanding before = some out ∧ out.length ≤ RAS.size

/-- The stack is the newest part of the outstanding link addresses, a return that finds an entry is
free, and so are all returns of shallow nested calls. -/
structure Predicts (b : BranchPredictor) (out : List (BitVec 64)) : Prop where
  window : Window RAS.size b.ras.q out
  ret : b.ras.empty = false → ∀ lastPc pc link, out.getLast? = some pc →
    ∀ p, b.Free p (.ret lastPc pc link)
  chain : ∀ tr : Trace, (∀ x ∈ tr, x.2.Valid) → Shallow tr → ∀ before x after,
    tr = before ++ x :: after → x.1.isRet = true →
      ∃ b', b.run before = some b' ∧ b'.Free x.2 x.1

/-! ### One transfer -/

section Transfers

variable {b : BranchPredictor} {p : Pipeline} {lastPc pc link : BitVec 64}

theorem doJump_ras {x : BranchPredictor × Pipeline} (h : b.doJump p lastPc pc link = some x) :
    x.1.ras = b.ras := by
  unfold BranchPredictor.doJump at h
  split at h
  · rw [(BranchPredictor.mispredictTarget_ok h).2]
  · rw [← Option.some.inj h]

variable (b lastPc pc link) in
/-- A call pushes its link address. -/
theorem doCall_ok (hp : p.Valid) : ∃ x, b.doCall p lastPc pc link = some x ∧
    x.1.ras.q = BoundedStack.push RAS.size link b.ras.q := by
  obtain ⟨b', p', hjump, -⟩ := BranchPredictor.charges_doJump b hp lastPc pc link
  have hras : b'.ras = b.ras := doJump_ras hjump
  refine ⟨_, by rw [BranchPredictor.doCall, hjump]; rfl, ?_⟩
  show (b'.ras.push link).q = _
  rw [hras]
  rfl

variable (p lastPc link) in
/-- A return that finds its address on the stack is free. -/
theorem doRet_of_last (h : b.ras.q.getLast? = some pc) :
    ∃ b', b.doRet p lastPc pc link = some (b', p) ∧ b'.btb = b.btb ∧
      b'.ras.q = b.ras.q.dropLast := by
  have hne : b.ras.empty = false := by
    rw [RAS.empty, List.isEmpty_eq_false_iff]
    rintro hnil
    rw [hnil] at h
    cases h
  obtain ⟨ras, hpop, hq⟩ : ∃ ras, b.ras.pop = some (pc, ras) ∧ ras.q = b.ras.q.dropLast := by
    rw [RAS.pop, h]
    exact ⟨_, rfl, rfl⟩
  refine ⟨{ b with ras := ras }, ?_, rfl, hq⟩
  rw [BranchPredictor.doRet, hne, hpop]
  simp

variable (lastPc pc link) in
/-- A return that finds the stack empty is a jump. -/
theorem doRet_of_nil (hp : p.Valid) (h : b.ras.q = []) :
    ∃ x, b.doRet p lastPc pc link = some x ∧ x.1.ras.q = [] := by
  obtain ⟨b', p', hjump, -⟩ := BranchPredictor.charges_doJump b hp lastPc pc link
  have hempty : b.ras.empty = true := by rw [RAS.empty, h]; rfl
  refine ⟨(b', p'), by rw [BranchPredictor.doRet, if_pos hempty, hjump], ?_⟩
  rw [doJump_ras hjump, h]

end Transfers

/-! ### Traces -/

section Traces

variable {b : BranchPredictor} {tr : Trace} {out out' : List (BitVec 64)} {x : Transfer × Pipeline}

theorem run_concat {b₁ : BranchPredictor} {y : BranchPredictor × Pipeline} (h : b.run tr = some b₁)
    (hy : b₁.transfer x.2 x.1 = some y) : b.run (tr ++ [x]) = some y.1 := by
  unfold BranchPredictor.run at h ⊢
  rw [List.foldlM_append, h]
  simp [hy]

theorem outstanding_concat :
    outstanding (tr ++ [x]) = (outstanding tr).bind x.1.next := by
  unfold outstanding
  rw [List.foldlM_append]
  cases List.foldlM (fun out x => x.1.next out) ([] : List (BitVec 64)) tr with
  | none => rfl
  | some out => simp

theorem Transfer.next_ret {lastPc pc link : BitVec 64}
    (h : (Transfer.ret lastPc pc link).next out = some out') : out = out' ++ [pc] := by
  have hif : (if out.getLast? = some pc then some out.dropLast else none) = some out' := h
  split_ifs at hif with hlast
  rw [← Option.some.inj hif]
  exact (List.dropLast_append_getLast? pc hlast).symm

/-- What holds of the stack and the outstanding addresses along a trace on which all outstanding
addresses satisfy `K`. -/
theorem run_induction {R : List (BitVec 64) → List (BitVec 64) → Prop} {K : List (BitVec 64) → Prop}
    (hcall : ∀ q out link, R q out → K (out ++ [link]) →
      R (BoundedStack.push RAS.size link q) (out ++ [link]))
    (hret : ∀ q out pc, R q (out ++ [pc]) → (q = [] ∨ q.getLast? = some pc) ∧ R q.dropLast out)
    (hstart : R b.ras.q []) (hvalid : ∀ x ∈ tr, x.2.Valid)
    (hkeep : ∀ before after out, tr = before ++ after → outstanding before = some out → K out)
    (hout : outstanding tr = some out) : ∃ b', b.run tr = some b' ∧ R b'.ras.q out := by
  induction tr using List.reverseRecOn generalizing out with
  | nil =>
    cases hout
    exact ⟨b, rfl, hstart⟩
  | append_singleton tr x ih =>
    obtain ⟨out₁, hout₁, hnext⟩ := Option.bind_eq_some_iff.1 (outstanding_concat.symm.trans hout)
    obtain ⟨b₁, hrun, hrel⟩ := ih (fun y hy => hvalid y (List.mem_append_left _ hy))
      (fun before after o htr ho => hkeep before (after ++ [x]) o (by rw [htr]; simp) ho) hout₁
    have hp : x.2.Valid := hvalid x (by simp)
    obtain ⟨x, p⟩ := x
    cases x with
    | call lastPc pc link =>
      cases hnext
      obtain ⟨y, hy, hq⟩ := doCall_ok b₁ lastPc pc link hp
      refine ⟨y.1, run_concat hrun hy, ?_⟩
      rw [hq]
      exact hcall _ _ _ hrel (hkeep _ [] _ (by simp) hout)
    | ret lastPc pc link =>
      obtain rfl := Transfer.next_ret hnext
      obtain ⟨hnil | hlast, hpop⟩ := hret _ _ _ hrel
      · obtain ⟨y, hy, hq⟩ := doRet_of_nil lastPc pc link hp hnil
        refine ⟨y.1, run_concat hrun hy, ?_⟩
        rwa [hq, ← List.dropLast_nil, ← hnil]
      · obtain ⟨b₂, hb₂, -, hq⟩ := doRet_of_last p lastPc link hlast
        refine ⟨b₂, run_concat (y := (b₂, p)) hrun hb₂, ?_⟩
        rwa [hq]

/-- The stack is a window of what is outstanding. -/
theorem window_of_run (hstart : b.ras.q = []) (hvalid : ∀ x ∈ tr, x.2.Valid)
    (hout : outstanding tr = some out) :
    ∃ b', b.run tr = some b' ∧ Window RAS.size b'.ras.q out :=
  run_induction (R := Window RAS.size) (K := fun _ => True) (fun _ _ link h _ => h.push link)
    (fun _ _ _ h => h.pop) (by rw [hstart]; exact .nil) hvalid (fun _ _ _ _ _ => trivial) hout

/-- Shallow nested calls leave all their addresses on the stack, whatever was there before. -/
theorem suffix_of_shallow (hvalid : ∀ x ∈ tr, x.2.Valid) (hshallow : Shallow tr)
    (hout : outstanding tr = some out) : ∃ b', b.run tr = some b' ∧ out <:+ b'.ras.q := by
  refine run_induction (R := fun q out => out <:+ q) (K := fun out => out.length ≤ RAS.size)
    (fun q out link h hlen => ?_) (fun q out pc h => ?_) List.nil_suffix hvalid
    (fun before after o htr ho => ?_) hout
  · rw [List.length_append, List.length_singleton] at hlen
    exact BoundedStack.suffix_push h hlen link
  · obtain ⟨hlast, hsuffix⟩ := BoundedStack.suffix_pop h
    exact ⟨.inr hlast, hsuffix⟩
  · obtain ⟨o', ho', hlen⟩ := hshallow before after htr
    obtain rfl := Option.some.inj (ho'.symm.trans ho)
    exact hlen

/-- The returns of shallow nested calls are free. -/
theorem free_of_shallow (hvalid : ∀ x ∈ tr, x.2.Valid) (hshallow : Shallow tr)
    {before after : Trace} (htr : tr = before ++ x :: after) (hret : x.1.isRet = true) :
    ∃ b', b.run before = some b' ∧ b'.Free x.2 x.1 := by
  obtain ⟨out, hout, -⟩ := hshallow before (x :: after) htr
  obtain ⟨out', hout', -⟩ := hshallow (before ++ [x]) after (by rw [htr]; simp)
  have hnext : x.1.next out = some out' := by
    rw [outstanding_concat, hout] at hout'
    exact hout'
  have hshallow' : Shallow before := fun before' after' h =>
    hshallow before' (after' ++ x :: after) (by rw [htr, h, List.append_assoc])
  obtain ⟨b', hrun, hsuffix⟩ := suffix_of_shallow (b := b)
    (fun y hy => hvalid y (by rw [htr]; exact List.mem_append_left _ hy)) hshallow' hout
  refine ⟨b', hrun, ?_⟩
  obtain ⟨x, p⟩ := x
  cases x with
  | call lastPc pc link => cases hret
  | ret lastPc pc link =>
    obtain rfl := Transfer.next_ret hnext
    obtain ⟨b₂, hb₂, hbtb, -⟩ := doRet_of_last p lastPc link
      (BoundedStack.suffix_pop hsuffix).1
    exact ⟨b₂, hb₂, hbtb⟩

/-- The return address stack holds the newest of the outstanding link addresses after every matched
trace, and predicts the returns that it can. -/
theorem predicts_of_run (hstart : b.ras.q = []) (hvalid : ∀ x ∈ tr, x.2.Valid)
    (hout : outstanding tr = some out) : ∃ b', b.run tr = some b' ∧ Predicts b' out := by
  obtain ⟨b', hrun, hwindow⟩ := window_of_run hstart hvalid hout
  refine ⟨b', hrun, hwindow, fun hne lastPc pc link hlast p => ?_, fun tr hv hs before x after =>
    free_of_shallow hv hs⟩
  obtain ⟨out, rfl⟩ : ∃ o, out = o ++ [pc] := ⟨_, (List.dropLast_append_getLast? pc hlast).symm⟩
  rcases hwindow.pop.1 with hnil | htop
  · rw [RAS.empty, hnil] at hne
    cases hne
  · obtain ⟨b₂, hb₂, hbtb, -⟩ := doRet_of_last p lastPc link htop
    exact ⟨b₂, hb₂, hbtb⟩

end Traces

/-- Three nested calls and the first two returns, each with nothing pending in the timing model. -/
def threeCalls : Trace :=
  [.call 0x100 0x200 0x104, .call 0x200 0x300 0x204, .call 0x300 0x400 0x304,
    .ret 0x400 0x304 0x404, .ret 0x308 0x204 0x30C].map fun x => (x, .empty 0)

theorem predicts_of_run_threeCalls :
    ∃ b', BranchPredictor.init.run threeCalls = some b' ∧ Predicts b' [0x104] :=
  predicts_of_run rfl
    (fun x hx => by
      obtain ⟨_, -, rfl⟩ := List.mem_map.1 hx
      exact Pipeline.valid_empty 0)
    (by decide)

end Vcil.Timing
