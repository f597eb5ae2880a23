import Vcil.Lib.Recency
import Vcil.Timing.Scoreboard

/-!
# The timing of the instruction cache

`InstrMemoryProxyWithHiFive1CacheTiming` keeps two addresses and a mark for each of 512 sets, and
stalls the pipeline timing model when a fetch is to neither.

* `CacheLine`, `InstrMemoryProxy.updateTimingModel`: the model of the source;
* `recentLines`: the lines that an exact least-recently-used cache has in the set of an address;
* `InstrMemoryProxy.Shows`: how the entries show the fetches so far;
* `ExactLru`, `exactLru_iff`: the fetch sequences on which the model is such a cache.
-/

namespace Vcil.Timing

open Recency

/-! ### The model -/

def cacheLineLoadDelayMin : ℕ := 4520
def cacheLineLoadDelayMax : ℕ := 4720
def cacheLineLoadDelayDelta : ℕ := cacheLineLoadDelayMax - cacheLineLoadDelayMin

/-- A 2-way associative entry: two addresses, and the replacement mark. -/
structure CacheLine where
  first : BitVec 32
  second : BitVec 32
  stat : Bool
  deriving DecidableEq, Repr

/-- The pipeline timing model that is stalled, and the entries. -/
structure InstrMemoryProxy where
  pipeline : Pipeline
  lines : Fin 512 → CacheLine

def tag (pc : BitVec 32) : BitVec 32 := (pc &&& (0b111111111#32 <<< 5)) >>> 5

def head (pc : BitVec 32) : BitVec 32 := pc &&& ~~~0b11111111111111#32

theorem tag_toNat (pc : BitVec 32) : (tag pc).toNat = pc.toNat / 32 % 512 := by
  have hmod := Nat.and_two_pow_sub_one_eq_mod (pc >>> 5).toNat 9
  rw [tag, BitVec.ushiftRight_and_distrib, BitVec.toNat_and]
  exact hmod.trans (by rw [BitVec.toNat_ushiftRight, Nat.shiftRight_eq_div_pow])

theorem head_eq (pc : BitVec 32) : head pc = (pc >>> 14) <<< 14 := by
  have hmask : ∀ i < 32, (0b11111111111111#32).getLsbD i = decide (i < 14) := by decide
  apply BitVec.eq_of_getLsbD_eq
  intro i hi
  rw [head, BitVec.getLsbD_and, BitVec.getLsbD_not, hmask i hi, BitVec.getLsbD_shiftLeft,
    BitVec.getLsbD_ushiftRight]
  by_cases h14 : i < 14
  · simp [h14]
  · simp [h14, hi, Nat.add_sub_cancel' (Nat.le_of_not_lt h14)]

theorem head_toNat (pc : BitVec 32) : (head pc).toNat = pc.toNat / 16384 * 16384 := by
  have hlt := pc.isLt
  rw [head_eq, BitVec.toNat_shiftLeft, BitVec.toNat_ushiftRight, Nat.shiftLeft_eq,
    Nat.shiftRight_eq_div_pow]
  omega

/-- The index of `lines` for an address. -/
def setIndex (pc : BitVec 32) : Fin 512 :=
  ⟨(tag pc).toNat, by rw [tag_toNat]; exact Nat.mod_lt _ (by decide)⟩

namespace InstrMemoryProxy

/-- Nothing has been fetched. -/
def init (pipeline : Pipeline) : InstrMemoryProxy := ⟨pipeline, fun _ => ⟨0, 0, false⟩⟩

/-- `rand` is what `rand()` returns. -/
def updateTimingModel (m : InstrMemoryProxy) (rand : ℕ) (pc : BitVec 64) :
    Option InstrMemoryProxy := do
  guard (pc ≤ 0xFFFFFFFF)
  let tag := setIndex (pc.setWidth 32)
  let head := head (pc.setWidth 32)
  let line := m.lines tag
  if line.first = head then
    -- cache hit on the first entry
    return { m with lines := Function.update m.lines tag { line with stat := true } }
  else if line.second = head then
    -- cache hit on the second entry
    return { m with lines := Function.update m.lines tag { line with stat := false } }
  else
    let cacheMissPenalty := rand % cacheLineLoadDelayDelta + cacheLineLoadDelayMin
    let pipeline ← m.pipeline.stall cacheMissPenalty
    let line := if line.stat then { line with second := head } else { line with first := head }
    return ⟨pipeline, Function.update m.lines tag { line with stat := !line.stat }⟩

/-- A sequence of fetches, each with what `rand()` returns there. -/
def run (m : InstrMemoryProxy) (fetches : List (ℕ × BitVec 32)) : Option InstrMemoryProxy :=
  fetches.foldlM (fun m f => m.updateTimingModel f.1 (f.2.setWidth 64)) m

end InstrMemoryProxy

/-! ### Lines -/

/-- The 32-byte line of an address. -/
def lineOf (pc : BitVec 32) : ℕ := pc.toNat / 32

/-- The lines that `hist` has fetched in the set of `pc`. -/
def linesInSet (hist : List (BitVec 32)) (pc : BitVec 32) : List ℕ :=
  (hist.map lineOf).filter fun l => l % 512 = lineOf pc % 512

/-- The two of them that were fetched last. -/
def recentLines (hist : List (BitVec 32)) (pc : BitVec 32) : List ℕ :=
  (order (linesInSet hist pc)).take 2

/-- The addresses that the model keeps for them. -/
def headsInSet (hist : List (BitVec 32)) (k : Fin 512) : List (BitVec 32) :=
  (hist.filter fun pc => setIndex pc = k).map head

theorem setIndex_eq_iff {pc pc' : BitVec 32} :
    setIndex pc = setIndex pc' ↔ lineOf pc % 512 = lineOf pc' % 512 := by
  rw [Fin.ext_iff]
  show (tag pc).toNat = (tag pc').toNat ↔ _
  rw [tag_toNat, tag_toNat]
  rfl

/-- The first address of a line's 16384 bytes. -/
def lineHead (l : ℕ) : BitVec 32 := BitVec.ofNat 32 (l / 512 * 16384)

theorem lineHead_lineOf (pc : BitVec 32) : lineHead (lineOf pc) = head pc := by
  have hlt := pc.isLt
  apply BitVec.eq_of_toNat_eq
  rw [lineHead, BitVec.toNat_ofNat, head_toNat, lineOf]
  omega

/-- In a set, the model's address tells the lines apart. -/
theorem head_eq_iff {pc pc' : BitVec 32} (hset : lineOf pc % 512 = lineOf pc' % 512) :
    head pc = head pc' ↔ lineOf pc = lineOf pc' := by
  rw [← BitVec.toNat_inj, head_toNat, head_toNat]
  unfold lineOf at *
  omega

theorem headsInSet_eq (hist : List (BitVec 32)) (pc : BitVec 32) :
    headsInSet hist (setIndex pc) = (linesInSet hist pc).map lineHead := by
  rw [headsInSet, linesInSet, List.filter_map, List.map_map]
  congr 1
  · funext pc'
    exact (lineHead_lineOf pc').symm
  · refine List.filter_congr fun pc' _ => ?_
    simp only [Function.comp, setIndex_eq_iff]

theorem mem_linesInSet {hist : List (BitVec 32)} {pc : BitVec 32} {l : ℕ} :
    l ∈ linesInSet hist pc ↔ ∃ pc' ∈ hist, lineOf pc' = l ∧ l % 512 = lineOf pc % 512 := by
  rw [linesInSet, List.mem_filter, List.mem_map, decide_eq_true_eq]
  constructor
  · rintro ⟨⟨pc', hmem, rfl⟩, hset⟩
    exact ⟨pc', hmem, rfl, hset⟩
  · rintro ⟨pc', hmem, rfl, hset⟩
    exact ⟨⟨pc', hmem, rfl⟩, hset⟩

theorem order_headsInSet (hist : List (BitVec 32)) (pc : BitVec 32) :
    order (headsInSet hist (setIndex pc)) = (order (linesInSet hist pc)).map lineHead := by
  rw [headsInSet_eq]
  refine order_map fun x hx y hy hxy => ?_
  obtain ⟨pc₁, -, rfl, hset₁⟩ := mem_linesInSet.1 hx
  obtain ⟨pc₂, -, rfl, hset₂⟩ := mem_linesInSet.1 hy
  rw [lineHead_lineOf, lineHead_lineOf] at hxy
  exact (head_eq_iff (hset₁.trans hset₂.symm)).1 hxy

/-! ### The entries and the history -/

/-- The address used last. -/
def CacheLine.last (line : CacheLine) : BitVec 32 := if line.stat then line.first else line.second

/-- The one that is replaced next. -/
def CacheLine.other (line : CacheLine) : BitVec 32 := if line.stat then line.second else line.first

/-- The entry holds the two addresses used last. -/
def CacheLine.Holds (line : CacheLine) (l : List (BitVec 32)) : Prop := Ways line.last line.other l

section

variable {line : CacheLine} {l : List (BitVec 32)} {x : BitVec 32}

theorem CacheLine.Holds.mem (h : line.Holds l) :
    x ∈ l.take 2 ↔ line.first = x ∨ line.second = x := by
  rw [Ways.mem h, last, other]
  split_ifs
  · rw [eq_comm, eq_comm (a := x)]
  · rw [or_comm, eq_comm, eq_comm (a := x)]

theorem CacheLine.Holds.first (h : line.Holds l) (hx : line.first = x) :
    { line with stat := true }.Holds (touch l x) := by
  subst hx
  obtain ⟨a, b, stat⟩ := line
  cases stat with
  | true => exact Ways.first h
  | false =>
    have h : Ways b a l := h
    by_cases hab : a = b
    · subst hab
      exact h.first
    · exact h.second (Ne.symm hab)

theorem CacheLine.Holds.second (h : line.Holds l) (hx : line.second = x) :
    { line with stat := false }.Holds (touch l x) := by
  subst hx
  obtain ⟨a, b, stat⟩ := line
  cases stat with
  | false => exact Ways.first h
  | true =>
    have h : Ways a b l := h
    by_cases hab : a = b
    · subst hab
      exact h.first
    · exact h.second hab

/-- The entry that is not the one used last is replaced. -/
theorem CacheLine.Holds.miss (h : line.Holds l) (hfirst : line.first ≠ x)
    (hsecond : line.second ≠ x) :
    { (if line.stat then { line with second := x } else { line with first := x }) with
      stat := !line.stat }.Holds (touch l x) := by
  obtain ⟨a, b, stat⟩ := line
  cases stat with
  | true => exact Ways.miss h (Ne.symm hfirst)
  | false => exact Ways.miss h (Ne.symm hsecond)

end

/-- The entries show the fetches `hist`, as if each set had begun with a fetch from address zero. -/
def InstrMemoryProxy.Shows (m : InstrMemoryProxy) (hist : List (BitVec 32)) : Prop :=
  ∀ k, (m.lines k).Holds (order (0 :: headsInSet hist k))

/-- A stall by the penalty of a miss. -/
def Pipeline.Penalized (p p' : Pipeline) : Prop :=
  ∃ k : ℕ, cacheLineLoadDelayMin ≤ k ∧ k ≤ cacheLineLoadDelayMax ∧ p.stall k = some p'

section

variable {m : InstrMemoryProxy} {hist : List (BitVec 32)} {pc : BitVec 32}

/-- After a fetch the entry of its set has to show it, and the others stay. -/
theorem InstrMemoryProxy.Shows.fetch (h : m.Shows hist) {line : CacheLine} {p : Pipeline}
    (hline : line.Holds (touch (order (0 :: headsInSet hist (setIndex pc))) (head pc))) :
    (⟨p, Function.update m.lines (setIndex pc) line⟩ : InstrMemoryProxy).Shows (hist ++ [pc]) := by
  intro k
  by_cases hk : k = setIndex pc
  · subst hk
    have hheads : headsInSet (hist ++ [pc]) (setIndex pc) =
        headsInSet hist (setIndex pc) ++ [head pc] := by
      simp [headsInSet]
    show CacheLine.Holds (Function.update m.lines (setIndex pc) line (setIndex pc)) _
    rwa [Function.update_self, hheads, ← List.cons_append, order_concat]
  · have hheads : headsInSet (hist ++ [pc]) k = headsInSet hist k := by
      simp [headsInSet, Ne.symm hk]
    show CacheLine.Holds (Function.update m.lines (setIndex pc) line k) _
    rw [Function.update_of_ne hk, hheads]
    exact h k

/-- The assertion holds of 32-bit addresses. -/
theorem updateTimingModel_eq (m : InstrMemoryProxy) (rand : ℕ) (pc : BitVec 32) :
    let line := m.lines (setIndex pc)
    m.updateTimingModel rand (pc.setWidth 64) =
      if line.first = head pc then
        some ⟨m.pipeline, Function.update m.lines (setIndex pc) { line with stat := true }⟩
      else if line.second = head pc then
        some ⟨m.pipeline, Function.update m.lines (setIndex pc) { line with stat := false }⟩
      else
        (m.pipeline.stall ((rand % cacheLineLoadDelayDelta + cacheLineLoadDelayMin : ℕ) : ℤ)).map
          fun p => ⟨p, Function.update m.lines (setIndex pc)
            { (if line.stat then { line with second := head pc }
                else { line with first := head pc }) with stat := !line.stat }⟩ := by
  have hpc : (pc.setWidth 64).setWidth 32 = pc := by simp
  have hguard : pc.setWidth 64 ≤ (0xFFFFFFFF : BitVec 64) := by
    rw [BitVec.le_def, BitVec.toNat_setWidth]
    have hlt := pc.isLt
    show pc.toNat % 2 ^ 64 ≤ 4294967295
    omega
  unfold InstrMemoryProxy.updateTimingModel
  simp only [hpc, hguard, guard_true]
  by_cases hfirst : (m.lines (setIndex pc)).first = head pc
  · rw [if_pos hfirst, if_pos hfirst]
    rfl
  by_cases hsecond : (m.lines (setIndex pc)).second = head pc
  · rw [if_neg hfirst, if_neg hfirst, if_pos hsecond, if_pos hsecond]
    rfl
  · rw [if_neg hfirst, if_neg hfirst, if_neg hsecond, if_neg hsecond]
    cases m.pipeline.stall (rand % cacheLineLoadDelayDelta + cacheLineLoadDelayMin : ℕ) with
    | none => rfl
    | some p =>
      by_cases hstat : (m.lines (setIndex pc)).stat = true
      · simp only [if_pos hstat]
        rfl
      · simp only [if_neg hstat]
        rfl

theorem penalty_bounds (rand : ℕ) : let k := rand % cacheLineLoadDelayDelta + cacheLineLoadDelayMin
    cacheLineLoadDelayMin ≤ k ∧ k ≤ cacheLineLoadDelayMax := by
  have hlt : rand % 200 < 200 := Nat.mod_lt _ (by decide)
  show 4520 ≤ rand % 200 + 4520 ∧ rand % 200 + 4520 ≤ 4720
  omega

/-- One fetch: a hit if one of the two addresses of the set is that of the line. -/
theorem updateTimingModel_spec (rand : ℕ) (hp : m.pipeline.Valid) (h : m.Shows hist)
    (pc : BitVec 32) : ∃ m', m.updateTimingModel rand (pc.setWidth 64) = some m' ∧
      m'.pipeline.Valid ∧ m'.Shows (hist ++ [pc]) ∧
      if head pc ∈ (order (0 :: headsInSet hist (setIndex pc))).take 2 then
        m'.pipeline = m.pipeline
      else m.pipeline.Penalized m'.pipeline := by
  have hline := h (setIndex pc)
  rw [updateTimingModel_eq]
  by_cases hfirst : (m.lines (setIndex pc)).first = head pc
  · rw [if_pos hfirst]
    exact ⟨_, rfl, hp, h.fetch (hline.first hfirst), by rw [if_pos (hline.mem.2 (.inl hfirst))]⟩
  by_cases hsecond : (m.lines (setIndex pc)).second = head pc
  · rw [if_neg hfirst, if_pos hsecond]
    exact ⟨_, rfl, hp, h.fetch (hline.second hsecond), by rw [if_pos (hline.mem.2 (.inr hsecond))]⟩
  have hmiss : head pc ∉ (order (0 :: headsInSet hist (setIndex pc))).take 2 :=
    fun hmem => (hline.mem.1 hmem).elim hfirst hsecond
  obtain ⟨hlo, hhi⟩ := penalty_bounds rand
  obtain ⟨p', hstall, hp'⟩ := hp.advance (Int.natCast_pos.2 (Nat.lt_of_lt_of_le (by decide) hlo))
  have hstall : m.pipeline.stall _ = some p' := hstall
  rw [if_neg hfirst, if_neg hsecond, hstall]
  refine ⟨_, rfl, hp', h.fetch (hline.miss hfirst hsecond), ?_⟩
  rw [if_neg hmiss]
  exact ⟨_, hlo, hhi, hstall⟩

end

/-! ### Sequences of fetches -/

/-- Every fetch is a hit, without a stall, if its line is one of the two of its set that were fetched
last, and stalls once by the penalty of a miss otherwise. -/
def ExactLru (m : InstrMemoryProxy) (fetches : List (ℕ × BitVec 32)) : Prop :=
  ∀ before f after, fetches = before ++ f :: after →
    ∃ m₁ m₂, m.run before = some m₁ ∧
      m₁.updateTimingModel f.1 (f.2.setWidth 64) = some m₂ ∧
      if lineOf f.2 ∈ recentLines (before.map Prod.snd) f.2 then m₂.pipeline = m₁.pipeline
      else m₁.pipeline.Penalized m₂.pipeline

/-- A line of the first 16384 bytes is fetched for the first time only after two others of its set. -/
def WarmBelow16K (hist : List (BitVec 32)) (pc : BitVec 32) : Prop :=
  pc < 16384 → (∀ pc' ∈ hist, lineOf pc' ≠ lineOf pc) →
    ∃ x ∈ linesInSet hist pc, ∃ y ∈ linesInSet hist pc, x ≠ y

section

variable {p : Pipeline}

theorem shows_init (p : Pipeline) : (InstrMemoryProxy.init p).Shows [] := fun _ => rfl

theorem run_spec (hp : p.Valid) (fetches : List (ℕ × BitVec 32)) :
    ∃ m, (InstrMemoryProxy.init p).run fetches = some m ∧ m.pipeline.Valid ∧
      m.Shows (fetches.map Prod.snd) := by
  induction fetches using List.reverseRecOn with
  | nil => exact ⟨_, rfl, hp, shows_init p⟩
  | append_singleton fetches f ih =>
    obtain ⟨m, hrun, hvalid, hshows⟩ := ih
    obtain ⟨m', hstep, hvalid', hshows', -⟩ := updateTimingModel_spec f.1 hvalid hshows f.2
    refine ⟨m', ?_, hvalid', ?_⟩
    · unfold InstrMemoryProxy.run at hrun ⊢
      rw [List.foldlM_append, hrun]
      simpa using hstep
    · rwa [List.map_append]

theorem mem_recentLines {hist : List (BitVec 32)} {pc : BitVec 32} :
    lineOf pc ∈ recentLines hist pc ↔
      head pc ∈ (order (headsInSet hist (setIndex pc))).take 2 := by
  rw [order_headsInSet, ← List.map_take, List.mem_map, recentLines]
  constructor
  · exact fun hmem => ⟨lineOf pc, hmem, lineHead_lineOf pc⟩
  · rintro ⟨l, hmem, hl⟩
    obtain ⟨pc', -, rfl, hset⟩ := mem_linesInSet.1 (mem_order.1 (List.mem_of_mem_take hmem))
    rw [lineHead_lineOf] at hl
    rwa [← (head_eq_iff hset).1 hl]

/-- The model takes the line for fetched before though it was not. -/
theorem cold_iff {hist : List (BitVec 32)} {pc : BitVec 32} :
    head pc = 0 ∧ 0 ∉ headsInSet hist (setIndex pc) ∧
        (order (headsInSet hist (setIndex pc))).length < 2 ↔ ¬WarmBelow16K hist pc := by
  have hlow : head pc = 0 ↔ pc < 16384 := by
    rw [← BitVec.toNat_inj, head_toNat, BitVec.lt_def]
    show pc.toNat / 16384 * 16384 = 0 ↔ pc.toNat < 16384
    omega
  have hnew (hhead : head pc = 0) :
      0 ∉ headsInSet hist (setIndex pc) ↔ ∀ pc' ∈ hist, lineOf pc' ≠ lineOf pc := by
    rw [headsInSet_eq, List.mem_map]
    constructor
    · intro hzero pc' hmem hline
      refine hzero ⟨lineOf pc, mem_linesInSet.2 ⟨pc', hmem, hline, rfl⟩, ?_⟩
      rw [lineHead_lineOf, hhead]
    · rintro hno ⟨l, hmem, hl⟩
      obtain ⟨pc', hin, rfl, hset⟩ := mem_linesInSet.1 hmem
      rw [lineHead_lineOf] at hl
      exact hno pc' hin ((head_eq_iff hset).1 (hl.trans hhead.symm))
  have htwo : (order (headsInSet hist (setIndex pc))).length < 2 ↔
      ¬∃ x ∈ linesInSet hist pc, ∃ y ∈ linesInSet hist pc, x ≠ y := by
    rw [order_headsInSet, List.length_map, ← two_le_length_order, not_le]
  unfold WarmBelow16K
  constructor
  · rintro ⟨hhead, hzero, hlen⟩ hwarm
    exact htwo.1 hlen (hwarm (hlow.1 hhead) ((hnew hhead).1 hzero))
  · intro hcold
    push Not at hcold
    obtain ⟨hpc, hno, hnone⟩ := hcold
    have hhead := hlow.2 hpc
    refine ⟨hhead, (hnew hhead).2 hno, htwo.2 ?_⟩
    rintro ⟨x, hx, y, hy, hxy⟩
    exact hxy (hnone x hx y hy)

/-- The model hits if the cache does, and on a line that it wrongly takes for fetched. -/
theorem head_mem_iff {hist : List (BitVec 32)} {pc : BitVec 32} :
    head pc ∈ (order (0 :: headsInSet hist (setIndex pc))).take 2 ↔
      lineOf pc ∈ recentLines hist pc ∨ ¬WarmBelow16K hist pc := by
  rw [mem_take_order_cons, mem_recentLines, cold_iff]

/-- A penalty is not no stall. -/
theorem Pipeline.not_penalized (p : Pipeline) : ¬p.Penalized p := by
  rintro ⟨k, hlo, hhi, hstall⟩
  have hcycles : p.numTotalCycles = p.numTotalCycles + BitVec.ofInt 64 k :=
    Pipeline.advance_numTotalCycles hstall
  have hzero : BitVec.ofInt 64 (k : ℤ) = 0 := by simpa using hcycles
  have hk : k % 2 ^ 64 = 0 := by
    rw [← BitVec.toNat_inj] at hzero
    simpa using hzero
  have hlo : 4520 ≤ k := hlo
  have hhi : k ≤ 4720 := hhi
  omega

/-- The model is an exact cache on a sequence of fetches if and only if a line of the first 16384
bytes is new only where its set has two others. -/
theorem exactLru_iff (hp : p.Valid) (fetches : List (ℕ × BitVec 32)) :
    ExactLru (.init p) fetches ↔ ∀ before f after, fetches = before ++ f :: after →
      WarmBelow16K (before.map Prod.snd) f.2 := by
  constructor
  · intro hexact before f after hfetches
    obtain ⟨m₁, m₂, hrun, hstep, hcase⟩ := hexact before f after hfetches
    obtain ⟨m, hrun', hvalid, hshows⟩ := run_spec hp before
    obtain rfl : m = m₁ := Option.some.inj (hrun'.symm.trans hrun)
    obtain ⟨m', hstep', -, -, hhit⟩ := updateTimingModel_spec f.1 hvalid hshows f.2
    obtain rfl : m' = m₂ := Option.some.inj (hstep'.symm.trans hstep)
    by_contra hcold
    have hnew : lineOf f.2 ∉ recentLines (before.map Prod.snd) f.2 := by
      intro hmem
      have hfetched := (mem_linesInSet.1 (mem_order.1 (List.mem_of_mem_take hmem)))
      obtain ⟨pc', hmem', hline, -⟩ := hfetched
      exact hcold fun _ hno => absurd hline (hno pc' hmem')
    rw [if_pos (head_mem_iff.2 (.inr hcold))] at hhit
    rw [if_neg hnew, hhit] at hcase
    exact Pipeline.not_penalized _ hcase
  · intro hwarm before f after hfetches
    obtain ⟨m, hrun, hvalid, hshows⟩ := run_spec hp before
    obtain ⟨m', hstep, -, -, hhit⟩ := updateTimingModel_spec f.1 hvalid hshows f.2
    refine ⟨m, m', hrun, hstep, ?_⟩
    have hiff : head f.2 ∈ (order (0 :: headsInSet (before.map Prod.snd) (setIndex f.2))).take 2 ↔
        lineOf f.2 ∈ recentLines (before.map Prod.snd) f.2 := by
      rw [head_mem_iff]
      simp [hwarm before f after hfetches]
    simpa only [hiff] using hhit

end

theorem exactLru_iff_empty : ExactLru (.init (.empty 0)) [(7, 0x20400000#32), (3, 0x20400004#32)] := by
  refine (exactLru_iff (Pipeline.valid_empty 0) _).2 fun before f after hfetches hlow => ?_
  have hmem : f ∈ [(7, 0x20400000#32), (3, 0x20400004#32)] := by
    rw [hfetches]
    simp
  simp only [List.mem_cons, List.not_mem_nil, or_false] at hmem
  rcases hmem with rfl | rfl <;> exact absurd hlow (by decide)

/-- The first fetch of all is no stall if it is from address zero. -/
theorem not_exactLru_zero : ¬ExactLru (.init (.empty 0)) [(0, 0)] := by
  intro hexact
  obtain ⟨m₁, m₂, hrun, hstep, hcase⟩ := hexact [] (0, 0) [] rfl
  cases hrun
  cases hstep
  exact Pipeline.not_penalized _ hcase

end Vcil.Timing
