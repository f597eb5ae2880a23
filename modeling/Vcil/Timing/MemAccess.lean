import Mathlib.Algebra.Group.Nat.Defs
import Vcil.Timing.Scoreboard

/-!
# Store reservations and the bytes behind them

A reservation is the range of a store, and a load looks for a range that overlaps its own.  The end
of a range is computed modulo `2 ^ 32`, so that it is 0 for an access at the top of the address space.

* `MemAccess`: a naturally aligned access, with its bytes and its range;
* `MemAccess.overlaps_iff`: which common bytes `overlaps` finds;
* `KeepsReservations`: the calls that reserve nothing;
* `doLoad_ok`, `hasStoreReservation_iff`: what a load is charged, and what it finds.
-/

namespace Vcil.Timing

/-- An access of one, two or four bytes at a multiple of its size. -/
structure MemAccess where
  addr : BitVec 32
  size : ℕ
  sizes : size = 1 ∨ size = 2 ∨ size = 4
  aligned : addr.toNat % size = 0

namespace MemAccess

variable (s l : MemAccess)

/-- The addresses of the bytes. -/
def bytes : List (BitVec 32) := (List.range s.size).map fun k => s.addr + BitVec.ofNat 32 k

/-- The range that the simulator makes of the access. -/
def range : Range := ⟨s.addr, s.addr + BitVec.ofNat 32 s.size⟩

/-- The two have a byte in common. -/
def Meets : Prop := ∃ b ∈ s.bytes, b ∈ l.bytes

/-- The last byte is that of the address space, and the end of the range is 0. -/
def AtTop : Prop := s.addr.toNat + s.size = 2 ^ 32

/-- The one of the two that begins lower, the store if they begin together, is at the top. -/
def Missed : Prop := if l.addr < s.addr then l.AtTop else s.AtTop

instance : Decidable (s.Meets l) := inferInstanceAs (Decidable (∃ b ∈ s.bytes, _))

instance : Decidable s.AtTop := inferInstanceAs (Decidable (_ = _))

instance : Decidable (s.Missed l) := by
  unfold Missed
  infer_instance

/-! ### Bytes -/

variable {s l}

/-- An aligned access does not wrap. -/
theorem end_le : s.addr.toNat + s.size ≤ 2 ^ 32 := by
  have hlt := s.addr.isLt
  have haligned := s.aligned
  rcases s.sizes with h | h | h <;> rw [h] at haligned ⊢ <;> omega

theorem size_le : s.size ≤ 4 := by
  rcases s.sizes with h | h | h <;> omega

theorem size_pos : 0 < s.size := by
  rcases s.sizes with h | h | h <;> omega

theorem toNat_byte {k : ℕ} (hk : k < s.size) :
    (s.addr + BitVec.ofNat 32 k).toNat = s.addr.toNat + k := by
  have hend := s.end_le
  rw [BitVec.toNat_add, BitVec.toNat_ofNat]
  omega

theorem mem_bytes {b : BitVec 32} :
    b ∈ s.bytes ↔ s.addr.toNat ≤ b.toNat ∧ b.toNat < s.addr.toNat + s.size := by
  rw [bytes, List.mem_map]
  constructor
  · rintro ⟨k, hk, rfl⟩
    rw [List.mem_range] at hk
    rw [toNat_byte hk]
    omega
  · rintro ⟨hlo, hhi⟩
    have hk : b.toNat - s.addr.toNat < s.size := by omega
    refine ⟨b.toNat - s.addr.toNat, List.mem_range.2 hk, ?_⟩
    apply BitVec.eq_of_toNat_eq
    rw [toNat_byte hk]
    omega

/-- Two accesses meet when each begins before the other ends. -/
theorem meets_iff : s.Meets l ↔
    s.addr.toNat < l.addr.toNat + l.size ∧ l.addr.toNat < s.addr.toNat + s.size := by
  have hs := s.size_pos
  have hl := l.size_pos
  constructor
  · rintro ⟨b, hbs, hbl⟩
    rw [mem_bytes] at hbs hbl
    omega
  · rintro ⟨hsl, hls⟩
    -- the first byte of the one that begins later
    rcases Nat.le_total s.addr.toNat l.addr.toNat with hle | hle
    · exact ⟨l.addr, mem_bytes.2 (by omega), mem_bytes.2 (by omega)⟩
    · exact ⟨s.addr, mem_bytes.2 (by omega), mem_bytes.2 (by omega)⟩

/-! ### Ranges -/

/-- The end of a range is right, unless the access is at the top. -/
theorem toNat_end : s.range.end.toNat = if s.AtTop then 0 else s.addr.toNat + s.size := by
  have hend := s.end_le
  have hle := s.size_le
  have hsum : s.range.end.toNat = (s.addr.toNat + s.size % 2 ^ 32) % 2 ^ 32 := by
    rw [range, BitVec.toNat_add, BitVec.toNat_ofNat]
  by_cases htop : s.AtTop
  · rw [if_pos htop, hsum]
    unfold AtTop at htop
    omega
  · rw [if_neg htop, hsum]
    unfold AtTop at htop
    omega

/-- `overlaps` finds nothing but common bytes, and finds them unless it compares with an end
that is 0. -/
theorem overlaps_iff : s.range.overlaps l.range = true ↔ s.Meets l ∧ ¬s.Missed l := by
  have hsend := s.end_le
  have hlend := l.end_le
  have hspos := s.size_pos
  have hlpos := l.size_pos
  have hoverlaps : s.range.overlaps l.range = if l.addr < s.addr
      then decide (s.addr < l.range.end) else decide (l.addr < s.range.end) := rfl
  rw [meets_iff, Missed, hoverlaps]
  by_cases hlt : l.addr < s.addr
  · rw [if_pos hlt, if_pos hlt, decide_eq_true_iff, BitVec.lt_def, toNat_end]
    rw [BitVec.lt_def] at hlt
    by_cases htop : l.AtTop
    · simp [htop]
    · simp only [htop, if_false, not_false_eq_true, and_true]
      omega
  · rw [if_neg hlt, if_neg hlt, decide_eq_true_iff, BitVec.lt_def, toNat_end]
    rw [BitVec.lt_def] at hlt
    by_cases htop : s.AtTop
    · simp [htop]
    · simp only [htop, if_false, not_false_eq_true, and_true]
      omega

end MemAccess

namespace Pipeline

/-! ### Calls that reserve nothing -/

/-- Every store that is pending afterwards was pending before. -/
def KeepsReservations (p p' : Pipeline) : Prop :=
  ∀ e' ∈ p'.pendingStoreReservations, ∃ e ∈ p.pendingStoreReservations, e.key = e'.key

theorem KeepsReservations.refl (p : Pipeline) : KeepsReservations p p := fun e he => ⟨e, he, rfl⟩

theorem KeepsReservations.trans {p p₁ p' : Pipeline} (h₁ : KeepsReservations p p₁)
    (h₂ : KeepsReservations p₁ p') : KeepsReservations p p' := by
  intro e' he'
  obtain ⟨e₁, he₁, hkey₁⟩ := h₂ e' he'
  obtain ⟨e, he, hkey⟩ := h₁ e₁ he₁
  exact ⟨e, he, hkey.trans hkey₁⟩

theorem KeepsReservations.of_eq {p p' : Pipeline}
    (h : p'.pendingStoreReservations = p.pendingStoreReservations) : KeepsReservations p p' := by
  intro e he
  rw [h] at he
  exact ⟨e, he, rfl⟩

theorem mem_advanceAll {κ : Type} {n : ℤ} {es es' : List (Countdown κ)}
    (h : advanceAll n es = some es') : ∀ e' ∈ es', ∃ e ∈ es, e.key = e'.key := by
  induction es generalizing es' with
  | nil =>
    cases h
    exact fun e' he' => nomatch he'
  | cons e es ih =>
    simp only [advanceAll, advanceLatency, Option.bind_eq_bind, Option.bind_eq_some_iff] at h
    obtain ⟨⟨e₁, alive⟩, ⟨_, -, he₁⟩, es₁, hes₁, hkept⟩ := h
    cases he₁
    intro e' he'
    have htail : e' ∈ es₁ → ∃ d ∈ e :: es, d.key = e'.key := fun hmem => by
      obtain ⟨d, hd, hkey⟩ := ih hes₁ e' hmem
      exact ⟨d, List.mem_cons_of_mem e hd, hkey⟩
    cases hkept
    split at he'
    · rcases List.mem_cons.1 he' with rfl | hmem
      · exact ⟨e, List.mem_cons_self, rfl⟩
      · exact htail hmem
    · exact htail he'

variable {p p' : Pipeline}

theorem keeps_advance {n : ℤ} (h : p.advance n = some p') : KeepsReservations p p' := by
  simp only [advance, Option.bind_eq_bind, Option.bind_eq_some_iff] at h
  obtain ⟨_, -, _, -, _, -, _, -, stores, hstores, hp⟩ := h
  cases hp
  exact mem_advanceAll hstores

theorem addResultLatency_ok {r : ℕ} {l : ℤ} (h : p.addResultLatency r l = some p') :
    p'.pendingStoreReservations = p.pendingStoreReservations ∧
      p'.numTotalCycles = p.numTotalCycles := by
  simp only [addResultLatency, Option.bind_eq_bind, Option.bind_eq_some_iff] at h
  obtain ⟨_, -, _, -, hp⟩ := h
  cases hp
  exact ⟨rfl, rfl⟩

theorem keeps_addResultLatency {r : ℕ} {l : ℤ} (h : p.addResultLatency r l = some p') :
    KeepsReservations p p' := .of_eq (addResultLatency_ok h).1

theorem keeps_accessRegister {r : ℕ} (h : p.accessRegister r = some p') :
    KeepsReservations p p' := by
  unfold accessRegister at h
  split at h
  · exact keeps_advance h
  · cases h
    exact .refl p

theorem keeps_waitFor {u : OperationReservation} (h : p.waitFor u = some p') :
    KeepsReservations p p' := by
  unfold waitFor at h
  split at h
  · exact keeps_advance h
  · cases h
    exact .refl p

/-- An operation on a unit, which it waits for and acquires. -/
theorem keeps_operation {u : OperationReservation} {p₁ p₂ : Pipeline} {rd : ℕ} {l : ℤ}
    (hwait : p.waitFor u = some p₁) (hadd : p₂.addResultLatency rd l = some p')
    (hacquire : p₂.pendingStoreReservations = p₁.pendingStoreReservations) :
    KeepsReservations p p' :=
  (keeps_waitFor hwait).trans ((KeepsReservations.of_eq hacquire).trans
    (keeps_addResultLatency hadd))

theorem keeps_doMult {rd : ℕ} {a b : BitVec 32} (h : p.doMult rd a b = some p') :
    KeepsReservations p p' := by
  simp only [doMult, reserveMult, Option.bind_eq_bind, Option.bind_eq_some_iff] at h
  obtain ⟨_, ⟨p₁, hwait, _, -, hp₂⟩, hadd⟩ := h
  cases hp₂
  exact keeps_operation hwait hadd rfl

theorem keeps_doDiv {rd : ℕ} {a b : BitVec 32} (h : p.doDiv rd a b = some p') :
    KeepsReservations p p' := by
  simp only [doDiv, reserveDiv, Option.bind_eq_bind, Option.bind_eq_some_iff] at h
  obtain ⟨_, ⟨p₁, hwait, _, -, hp₂⟩, hadd⟩ := h
  cases hp₂
  exact keeps_operation hwait hadd rfl

/-- A load, which stalls for one cycle if it finds a reservation. -/
theorem doLoad_ok {range : Range} {rd : ℕ} {l : ℤ} (h : p.doLoad range rd l = some p') :
    KeepsReservations p p' ∧ p'.numTotalCycles =
      p.numTotalCycles + if p.hasStoreReservation range then 1 else 0 := by
  unfold doLoad at h
  split at h
  next hfound =>
    simp only [Option.bind_eq_bind, Option.bind_eq_some_iff] at h
    obtain ⟨p₁, hstall, hadd⟩ := h
    obtain ⟨-, hcycles⟩ := addResultLatency_ok hadd
    refine ⟨(keeps_advance hstall).trans (keeps_addResultLatency hadd), ?_⟩
    rw [hcycles, advance_numTotalCycles hstall, if_pos hfound]
    rfl
  next hfree =>
    obtain ⟨-, hcycles⟩ := addResultLatency_ok h
    refine ⟨keeps_addResultLatency h, ?_⟩
    rw [hcycles, if_neg hfree]
    exact (BitVec.add_zero _).symm

/-- Only `reserve_store` adds a reservation. -/
theorem keeps_call {c : Call} (hc : ∀ range n, c ≠ .reserveStore range n)
    (h : p.call c = some p') : KeepsReservations p p' := by
  cases c with
  | advance n => exact keeps_advance h
  | accessRegister r => exact keeps_accessRegister h
  | doMult rd a b => exact keeps_doMult h
  | doDiv rd a b => exact keeps_doDiv h
  | doCsr rd => exact keeps_addResultLatency h
  | reserveStore range n => exact absurd rfl (hc range n)
  | doLoad range rd l => exact (doLoad_ok h).1

/-! ### Reservations of logged stores -/

/-- The store is one of those whose reservation is pending. -/
def Pending (p : Pipeline) (s : MemAccess) : Prop :=
  ∃ e ∈ p.pendingStoreReservations, e.key = s.range

instance (s : MemAccess) : Decidable (p.Pending s) :=
  inferInstanceAs (Decidable (∃ e ∈ p.pendingStoreReservations, _))

/-- Every pending reservation is that of a store of the log. -/
def Recorded (p : Pipeline) (log : List MemAccess) : Prop :=
  ∀ e ∈ p.pendingStoreReservations, ∃ s ∈ log, e.key = s.range

theorem recorded_empty (cycles : BitVec 64) : (Pipeline.empty cycles).Recorded [] :=
  fun _ he => nomatch he

theorem Recorded.keeps {log : List MemAccess} (h : p.Recorded log) (hk : KeepsReservations p p') :
    p'.Recorded log := by
  intro e' he'
  obtain ⟨e, he, hkey⟩ := hk e' he'
  obtain ⟨s, hs, hrange⟩ := h e he
  exact ⟨s, hs, hkey.symm.trans hrange⟩

theorem Recorded.reserveStore {log : List MemAccess} (h : p.Recorded log) (s : MemAccess) (n : ℤ) :
    (p.reserveStore s.range n).Recorded (log ++ [s]) := by
  intro e he
  rcases List.mem_append.1 he with hold | hnew
  · obtain ⟨d, hd, hrange⟩ := h e hold
    exact ⟨d, List.mem_append_left _ hd, hrange⟩
  · obtain rfl := List.mem_singleton.1 hnew
    exact ⟨s, by simp, rfl⟩

/-- A load finds the pending stores that it meets, unless it misses them. -/
theorem hasStoreReservation_iff {log : List MemAccess} (h : p.Recorded log) (l : MemAccess) :
    p.hasStoreReservation l.range = true ↔
      ∃ s ∈ log, p.Pending s ∧ s.Meets l ∧ ¬s.Missed l := by
  rw [hasStoreReservation, List.any_eq_true]
  constructor
  · rintro ⟨e, he, hover⟩
    obtain ⟨s, hs, hkey⟩ := h e he
    rw [hkey, MemAccess.overlaps_iff] at hover
    exact ⟨s, hs, ⟨e, he, hkey⟩, hover⟩
  · rintro ⟨s, -, ⟨e, he, hkey⟩, hover⟩
    refine ⟨e, he, ?_⟩
    rw [hkey, MemAccess.overlaps_iff]
    exact hover

end Pipeline

end Vcil.Timing
