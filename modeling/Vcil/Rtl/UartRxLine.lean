import Mathlib.Data.List.Chain
import Mathlib.Tactic.Ring
import Vcil.Rtl.UartRxCells

/-!
# What `uart_rx` shows on any line

Runs of the receiver without parity over an arbitrary infinite sequence of levels.

* `after`, `shown`: the registers after `n` clocks, and what has been shown until then;
* `Reads line S b`: the line has the word `b` at the sampling points of a frame whose start bit is
  sampled in clock `S`;
* `receiving_after`, `shown_receiving`: from the fifth low sample on, the receiver follows the bit
  cells of the word that the line has there, and shows it;
* `readings`: everything shown was read so, at times at least a frame and two clocks apart.
-/

namespace Vcil.Rtl.UartRx

open Clocked

variable {p : UartParams} (s : UartRx p) (line : ℕ → Bool)

/-- The registers after `n` clocks. -/
def after : ℕ → UartRx p := trace step s line

/-- What is shown in the first `N` clocks. -/
def shown (N : ℕ) : List (BitVec p.dataWidth) := s.pulses (history line N)

theorem shown_succ (N : ℕ) :
    s.shown line (N + 1) = s.shown line N ++ (s.after line (N + 1)).done?.toList := by
  rw [shown, history_succ, pulses, emits_append, ← trace_eq_run]
  simp only [emits, List.append_nil]
  rfl

theorem pulses_eq_shown (l : List Bool) : s.pulses l = s.shown (extend true l) l.length := by
  rw [shown, history_extend]

theorem sync_after (n : ℕ) : (s.after line (n + 1)).syncUartRx = line n := rfl

/-- The flag bits are the five synchronised levels before this clock. -/
theorem flag_getLsbD {m : ℕ} (hm : m < 5) (n : ℕ) :
    (s.after line (n + m + 1)).rFlagRcvStart.getLsbD m = (s.after line n).syncUartRx := by
  induction m with
  | zero => exact step_flag_zero
  | succ m ih =>
    rw [← ih (by omega)]
    exact step_flag_succ (by omega)

theorem flag_eq_zero_iff (n : ℕ) :
    (s.after line (n + 6)).rFlagRcvStart = 0 ↔ ∀ k < 5, line (n + k) = false := by
  have hbit : ∀ m < 5, (s.after line (n + 6)).rFlagRcvStart.getLsbD m = line (n + (4 - m)) := by
    intro m hm
    have h := flag_getLsbD s line hm (n + (4 - m) + 1)
    rwa [show n + (4 - m) + 1 + m + 1 = n + 6 by omega, sync_after] at h
  constructor
  · intro h0 k hk
    have h := hbit (4 - k) (by omega)
    rw [h0, show 4 - (4 - k) = k by omega] at h
    rw [← h]
    simp
  · intro hlow
    refine BitVec.eq_of_getLsbD_eq fun m hm => ?_
    rw [hbit m hm, hlow _ (by omega)]
    simp

/-- The detector does not fire before it has seen five levels. -/
theorem flag_early (hs : s.syncUartRx = true) (hf : s.rFlagRcvStart ≠ 0) {n : ℕ} (hn : n ≤ 5) :
    (s.after line n).rFlagRcvStart ≠ 0 := by
  rcases n with - | m
  · exact hf
  · intro h0
    have h := flag_getLsbD s line (m := m) (by omega) 0
    rw [Nat.zero_add, h0] at h
    have hlow : (s.after line 0).syncUartRx = false := by simpa using h.symm
    rw [show (s.after line 0).syncUartRx = s.syncUartRx from rfl, hs] at hlow
    exact Bool.noConfusion hlow

/-- The receiver at the end of a high level of at least six clocks. -/
structure Ready (s : UartRx p) : Prop extends Armed s where
  sync : s.syncUartRx = true
  flag : s.rFlagRcvStart = 0b11111

theorem ready_reset : Ready (reset : UartRx p) :=
  ⟨⟨rfl, rfl, rfl, rfl, rfl⟩, rfl, rfl⟩

/-! ### One word -/

variable {s line}

/-- While nothing is shown, nothing is added. -/
theorem shown_quiet {m n : ℕ} (hmn : m ≤ n)
    (h : ∀ k, m ≤ k → k < n → (s.after line (k + 1)).done? = none) :
    s.shown line n = s.shown line m := by
  induction n, hmn using Nat.le_induction with
  | base => rfl
  | succ n hmn ih =>
    rw [shown_succ, h n hmn (Nat.lt_succ_self n), ih fun k hk hkn => h k hk (by omega)]
    exact List.append_nil _

/-- An armed receiver waits until the detector fires. -/
theorem armed_until {m n : ℕ} (hmn : m ≤ n) (h : Armed (s.after line m)) (hC : 4 ≤ p.cycle)
    (hf : ∀ k, m ≤ k → k < n → (s.after line k).rFlagRcvStart ≠ 0) : Armed (s.after line n) := by
  induction n, hmn using Nat.le_induction with
  | base => exact h
  | succ n hmn ih =>
    exact (ih fun k hk hkn => hf k hk (by omega)).wait (hf n hmn (Nat.lt_succ_self n)) hC

/-- After six high levels an armed receiver is ready. -/
theorem Armed.ready {n : ℕ} (h : Armed (s.after line (n + 6)))
    (hhigh : ∀ k < 6, line (n + k) = true) : Ready (s.after line (n + 6)) := by
  refine ⟨h, ?_, ?_⟩
  · rw [sync_after, hhigh 5 (by decide)]
  · refine BitVec.eq_of_getLsbD_eq fun m hm => ?_
    have hbit := flag_getLsbD s line hm (n + (4 - m) + 1)
    rw [show n + (4 - m) + 1 + m + 1 = n + 6 by omega, sync_after, hhigh _ (by omega)] at hbit
    rw [hbit, show (0b11111 : BitVec 5) = BitVec.allOnes 5 from rfl, BitVec.getLsbD_allOnes]
    exact (decide_eq_true hm).symm

/-- Before the first low level, and until the detector has seen five, nothing happens. -/
theorem armed_first (hs : Ready s) (hC : 4 ≤ p.cycle) {F : ℕ} (hhigh : ∀ k < F, line k = true) :
    (∀ k ≤ F + 6, Armed (s.after line k)) ∧ s.shown line (F + 6) = [] := by
  have hflag : ∀ k < F + 6, (s.after line k).rFlagRcvStart ≠ 0 := by
    intro k hk
    rcases Nat.lt_or_ge k 6 with hlt | hge
    · exact flag_early s line hs.sync (by rw [hs.flag]; decide) (by omega)
    · obtain ⟨n, rfl⟩ : ∃ n, k = n + 6 := ⟨k - 6, by omega⟩
      rw [Ne, flag_eq_zero_iff]
      intro h0
      have h := h0 0 (by omega)
      rw [Nat.add_zero, hhigh n (by omega)] at h
      exact Bool.noConfusion h
  have harmed : ∀ k ≤ F + 6, Armed (s.after line k) := fun k hk =>
    armed_until (Nat.zero_le k) hs.toArmed hC fun m _ hm => hflag m (by omega)
  exact ⟨harmed, shown_quiet (Nat.zero_le _) fun k _ hk => (harmed (k + 1) (by omega)).done⟩

/-- When it looks for a start bit and has seen five low levels, the receiver takes a start bit to
have begun. -/
theorem detected_after {n : ℕ} (hlow : ∀ k < 5, line (n + k) = false)
    (hstate : Armed (s.after line (n + 6)) ∨ Finished (s.after line (n + 6))) :
    Detected (s.after line (n + 7)) ∧ s.shown line (n + 7) = s.shown line (n + 6) := by
  have hflag := (flag_eq_zero_iff s line n).2 hlow
  have hD : Detected (s.after line (n + 7)) := by
    rcases hstate with h | h
    · exact h.detect hflag
    · exact h.detect hflag
  refine ⟨hD, shown_quiet (Nat.le_succ _) fun k hk hk' => ?_⟩
  obtain rfl : k = n + 6 := by omega
  exact hD.done

/-- On a line that stays high the receiver stays armed and shows nothing more. -/
theorem at_rest (hC : 6 ≤ p.cycle) {M : ℕ} (hM : 6 ≤ M)
    (hstate : Armed (s.after line M) ∨ Finished (s.after line M))
    (hhigh : ∀ k, M - 2 ≤ k → line k = true) {n : ℕ} (hn : M ≤ n) :
    Armed (s.after line (n + 1)) ∧ s.shown line n = s.shown line M := by
  have hflag : ∀ k, M ≤ k → (s.after line k).rFlagRcvStart ≠ 0 := by
    intro k hk
    obtain ⟨m, rfl⟩ : ∃ m, k = m + 6 := ⟨k - 6, by omega⟩
    rw [Ne, flag_eq_zero_iff]
    intro h0
    have h := h0 4 (by omega)
    rw [hhigh _ (by omega)] at h
    exact Bool.noConfusion h
  have hfirst : Armed (s.after line (M + 1)) := by
    rcases hstate with h | h
    · exact h.wait (hflag M (Nat.le_refl M)) (by omega)
    · exact h.rearm (hflag M (Nat.le_refl M)) hC
  have harmed : ∀ k, M ≤ k → Armed (s.after line (k + 1)) := fun k hk =>
    armed_until (Nat.succ_le_succ hk) hfirst (by omega) fun m hm _ => hflag m (by omega)
  exact ⟨harmed n hn, shown_quiet hn fun k hk _ => (harmed k hk).done⟩

/-- The line has `b` at the sampling points of a frame whose start bit is sampled in clock `S`. -/
structure Reads (p : UartParams) (line : ℕ → Bool) (S : ℕ) (b : BitVec p.dataWidth) : Prop where
  start : line S = false
  bit : ∀ k < p.dataWidth, line (S + (k + 1) * p.cycle) = b.getLsbD k

theorem exists_reads {S : ℕ} (hS : line S = false) : ∃ b, Reads p line S b :=
  ⟨(BitVec.ofBoolListLE
      (List.ofFn fun k : Fin p.dataWidth => line (S + (k + 1) * p.cycle))).setWidth p.dataWidth,
    hS, fun k hk => by
      rw [BitVec.getLsbD_setWidth, BitVec.getLsbD_ofBoolListLE]
      simp [hk]⟩

section Word

variable {b : BitVec p.dataWidth} {T : ℕ} (hD : Detected (s.after line T))
  (hw0 : 0 < p.dataWidth) (hw : p.dataWidth < 16) (hC : 6 ≤ p.cycle) (hC' : p.cycle ≤ 65536)
include hD hw0 hw hC hC'

/-- Clock `r` of bit cell `j` is `j * cycle + r` clocks after the detection. -/
theorem receiving_after (hread : Reads p line (T + p.cycle / 2 - 1) b) {j : ℕ}
    (hj : j ≤ p.dataWidth + 1) (hon : j = p.dataWidth + 1 → p.parityOn = 0) {r : ℕ} (hr : 1 ≤ r)
    (hrC : r ≤ p.cycle) : Receiving b j r (s.after line (T + j * p.cycle + r)) := by
  refine cell_induction (n := j) (P := fun j r => Receiving b j r (s.after line (T + j * p.cycle + r)))
    (by omega) ?_ ?_ ?_ (Nat.le_refl j) hr hrC
  · rw [Nat.zero_mul, Nat.add_zero]
    exact hD.next (by omega)
  · intro k hk r hr hrC hrec
    refine hrec.next (fun h => hon (by omega)) hw (by omega) hr hrC hC' fun hmid hdata => ?_
    obtain ⟨m, hm⟩ : ∃ m, T + k * p.cycle + r = m + 1 := ⟨T + k * p.cycle + r - 1, by omega⟩
    rw [hm, sync_after]
    cases k with
    | zero =>
      rw [show m = T + p.cycle / 2 - 1 by omega, hread.start]
      rfl
    | succ k =>
      rw [show m = T + p.cycle / 2 - 1 + (k + 1) * p.cycle by omega, hread.bit k (by omega)]
      simp [cellBit]
  · intro k hk hrec
    rw [Nat.succ_mul, ← Nat.add_assoc]
    exact hrec.nextCell (fun h => hon (by omega)) hw0 (by omega) (by omega)

variable (hon : p.parityOn = 0)
include hon

theorem finished_after (hread : Reads p line (T + p.cycle / 2 - 1) b) :
    Finished (s.after line (T + (p.dataWidth + 2) * p.cycle + 1)) := by
  have hlast := receiving_after hD hw0 hw hC hC' hread (Nat.le_refl _) (fun _ => hon)
    (show 1 ≤ p.cycle by omega) (Nat.le_refl _)
  have hT : T + (p.dataWidth + 2) * p.cycle = T + (p.dataWidth + 1) * p.cycle + p.cycle := by ring
  rw [hT]
  exact hlast.finish hon (by omega)

/-- In the frame the word is shown once, in the middle of `STATE_END`. -/
theorem shown_receiving (hread : Reads p line (T + p.cycle / 2 - 1) b) {x : ℕ}
    (hx : x ≤ (p.dataWidth + 2) * p.cycle + 1) :
    s.shown line (T + x) = s.shown line T ++
      if (p.dataWidth + 1) * p.cycle + p.cycle / 2 < x then [b] else [] := by
  have hcells : (p.dataWidth + 2) * p.cycle = (p.dataWidth + 1) * p.cycle + p.cycle := by ring
  induction x with
  | zero => simp
  | succ x ih =>
    have hdone : (s.after line (T + x + 1)).done? =
        if x = (p.dataWidth + 1) * p.cycle + p.cycle / 2 then some b else none := by
      rcases Nat.lt_or_ge x ((p.dataWidth + 2) * p.cycle) with hlt | hge
      · -- clock `r + 1` of cell `j`
        obtain ⟨j, r, hr, rfl⟩ : ∃ j r, r < p.cycle ∧ x = j * p.cycle + r :=
          ⟨x / p.cycle, x % p.cycle, Nat.mod_lt _ (by omega), (Nat.div_add_mod' x p.cycle).symm⟩
        have hj : j < p.dataWidth + 2 := by
          by_contra hj
          have := Nat.mul_le_mul_right p.cycle (Nat.not_lt.1 hj)
          omega
        have hrec := receiving_after hD hw0 hw hC hC' hread (Nat.le_of_lt_succ hj) (fun _ => hon)
          (r := r + 1) (by omega) (by omega)
        rw [show T + (j * p.cycle + r) + 1 = T + j * p.cycle + (r + 1) by omega, hrec.done]
        refine if_congr ?_ rfl rfl
        constructor
        · rintro ⟨rfl, hr'⟩
          omega
        · intro heq
          have hj' : j = p.dataWidth + 1 := by
            rcases Nat.lt_trichotomy j (p.dataWidth + 1) with hlt | heq' | hgt
            · have := Nat.mul_le_mul_right p.cycle (Nat.succ_le_of_lt hlt)
              rw [Nat.succ_mul] at this
              omega
            · exact heq'
            · omega
          subst hj'
          exact ⟨rfl, by omega⟩
      · have hxe : x = (p.dataWidth + 2) * p.cycle := by omega
        rw [if_neg (by omega), hxe]
        exact (finished_after hD hw0 hw hC hC' hon hread).done
    rw [← Nat.add_assoc, shown_succ, ih (by omega), hdone, List.append_assoc]
    by_cases hmid : x = (p.dataWidth + 1) * p.cycle + p.cycle / 2
    · rw [if_pos hmid, if_neg (by omega), if_pos (by omega)]
      rfl
    · rw [if_neg hmid]
      simp only [Option.toList_none, List.append_nil]
      refine congrArg (_ ++ ·) (if_congr ?_ rfl rfl)
      omega

end Word

/-! ### Many words -/

section Readings

/-- The receiver takes a start bit to have begun in clock `T`, after five low levels, and the line
then has the word `b`. -/
structure Reading (p : UartParams) (line : ℕ → Bool) (T : ℕ) (b : BitVec p.dataWidth) : Prop where
  late : 7 ≤ T
  low : ∀ k < 5, line (T - 7 + k) = false
  reads : Reads p line (T + p.cycle / 2 - 1) b

/-- Readings in order, with room for a frame and two clocks from one to the next. -/
structure Readings (p : UartParams) (line : ℕ → Bool) (rs : List (ℕ × BitVec p.dataWidth)) :
    Prop where
  apart : rs.IsChain fun a b => a.1 + ((p.dataWidth + 2) * p.cycle + 2) ≤ b.1
  reading : ∀ r ∈ rs, Reading p line r.1 r.2

/-- What has been shown before clock `N`, and where the receiver then is: it looks for a start bit,
or it is in the frame that it took to begin in clock `T`. -/
inductive Phase (s : UartRx p) (line : ℕ → Bool) (N : ℕ) : Prop
  | free (rs : List (ℕ × BitVec p.dataWidth)) (hrs : Readings p line rs)
      (hshown : s.shown line N = rs.map Prod.snd)
      (hlast : ∀ r ∈ rs, r.1 + ((p.dataWidth + 2) * p.cycle + 1) ≤ N)
      (hstate : Armed (s.after line N) ∨ Finished (s.after line N))
  | busy (rs : List (ℕ × BitVec p.dataWidth)) (hrs : Readings p line rs) (T : ℕ) (hT : T ≤ N)
      (hshown : s.shown line T = rs.map Prod.snd)
      (hlast : ∀ r ∈ rs, r.1 + ((p.dataWidth + 2) * p.cycle + 2) ≤ T)
      (hlate : 7 ≤ T) (hlow : ∀ k < 5, line (T - 7 + k) = false)
      (hstate : Detected (s.after line T))
      (hend : N ≤ T + if line (T + p.cycle / 2 - 1) then p.cycle / 2 + 1
        else (p.dataWidth + 2) * p.cycle)

theorem Readings.concat {rs : List (ℕ × BitVec p.dataWidth)} (h : Readings p line rs) {T : ℕ}
    {b : BitVec p.dataWidth} (hr : Reading p line T b)
    (hlast : ∀ r ∈ rs, r.1 + ((p.dataWidth + 2) * p.cycle + 2) ≤ T) :
    Readings p line (rs ++ [(T, b)]) := by
  constructor
  · rw [List.isChain_append]
    refine ⟨h.apart, List.isChain_singleton _, fun a ha c hc => ?_⟩
    obtain rfl : (T, b) = c := by simpa using hc
    exact hlast a (List.mem_of_mem_getLast? ha)
  · intro r hr'
    rcases List.mem_append.1 hr' with hmem | hmem
    · exact h.reading r hmem
    · obtain rfl := List.mem_singleton.1 hmem
      exact hr

/-- A clock of a receiver that looks for a start bit: it finds one, after five low levels, or it goes
on looking. -/
theorem free_succ (hC : 6 ≤ p.cycle) (hs : Ready s) {N : ℕ}
    (hstate : Armed (s.after line N) ∨ Finished (s.after line N)) :
    (7 ≤ N + 1 ∧ (∀ k < 5, line (N + 1 - 7 + k) = false) ∧ Detected (s.after line (N + 1)) ∨
      Armed (s.after line (N + 1))) ∧ s.shown line (N + 1) = s.shown line N := by
  by_cases hf : (s.after line N).rFlagRcvStart = 0
  · -- the detector fires
    have hN : 6 ≤ N := by
      by_contra hlt
      exact flag_early s line hs.sync (by rw [hs.flag]; decide) (by omega) hf
    obtain ⟨n, rfl⟩ : ∃ n, N = n + 6 := ⟨N - 6, by omega⟩
    have hlow := (flag_eq_zero_iff s line n).1 hf
    obtain ⟨hD, hsame⟩ := detected_after hlow hstate
    refine ⟨.inl ⟨by omega, fun k hk => ?_, hD⟩, hsame⟩
    rw [show n + 6 + 1 - 7 = n by omega]
    exact hlow k hk
  · have hA : Armed (s.after line (N + 1)) := by
      rcases hstate with h | h
      · exact h.wait hf (by omega)
      · exact h.rearm hf hC
    refine ⟨.inr hA, ?_⟩
    rw [shown_succ, hA.done]
    exact List.append_nil _

variable (hw0 : 0 < p.dataWidth) (hw : p.dataWidth < 16) (hC : 6 ≤ p.cycle)
  (hC' : p.cycle ≤ 65536) (hon : p.parityOn = 0)
include hC hC'

/-- After a start bit that is high again in its middle the receiver is armed, nothing is shown. -/
theorem aborted_after {T : ℕ} (hD : Detected (s.after line T))
    (hS : line (T + p.cycle / 2 - 1) = true) :
    Armed (s.after line (T + p.cycle / 2 + 2)) ∧
      ∀ x ≤ p.cycle / 2 + 2, s.shown line (T + x) = s.shown line T := by
  have hstart : ∀ r, 1 ≤ r → r ≤ p.cycle / 2 →
      Receiving (0 : BitVec p.dataWidth) 0 r (s.after line (T + r)) := by
    intro r hr
    induction r, hr using Nat.le_induction with
    | base => exact fun _ => hD.next (by omega)
    | succ r hr ih =>
      intro hrC
      exact (ih (by omega)).next_start hr (by omega) hC' fun hmid => absurd hmid (by omega)
  have habort : Aborted (s.after line (T + p.cycle / 2 + 1)) := by
    refine (hstart (p.cycle / 2) (by omega) (Nat.le_refl _)).abort ?_ (by omega) hC'
    rw [show T + p.cycle / 2 = T + p.cycle / 2 - 1 + 1 by omega, sync_after, hS]
  have harmed : Armed (s.after line (T + p.cycle / 2 + 2)) := habort.next
  refine ⟨harmed, fun x hx => shown_quiet (Nat.le_add_right T x) fun k hk hkx => ?_⟩
  rcases Nat.lt_or_ge k (T + p.cycle / 2) with hlt | hge
  · have hdone := (hstart (k + 1 - T) (by omega) (by omega)).done
    rwa [show T + (k + 1 - T) = k + 1 by omega, if_neg (by omega)] at hdone
  · rcases Nat.eq_or_lt_of_le hge with rfl | hgt
    · exact habort.done
    · obtain rfl : k = T + p.cycle / 2 + 1 := by omega
      exact harmed.done

include hw0 hw hon

theorem phase_after (hs : Ready s) (N : ℕ) : Phase s line N := by
  induction N with
  | zero =>
    exact .free [] ⟨List.isChain_nil, fun _ h => nomatch h⟩ rfl (fun _ h => nomatch h)
      (Or.inl hs.toArmed)
  | succ N ih =>
    cases ih with
    | free rs hrs hshown hlast hstate =>
      obtain ⟨hfound | harmed, hsame⟩ := free_succ hC hs hstate
      · obtain ⟨hlate, hlow, hD⟩ := hfound
        refine .busy rs hrs (N + 1) (Nat.le_refl _) (hsame.trans hshown) (fun r hr => ?_)
          hlate hlow hD (Nat.le_add_right _ _)
        have := hlast r hr
        omega
      · exact .free rs hrs (hsame.trans hshown) (fun r hr => Nat.le_succ_of_le (hlast r hr))
          (Or.inl harmed)
    | busy rs hrs T hT hshown hlast hlate hlow hstate hend =>
      rcases Nat.eq_or_lt_of_le hend with heq | hlt
      · by_cases hS : line (T + p.cycle / 2 - 1) = true
        · -- the start bit was too short
          rw [if_pos hS] at heq
          obtain ⟨harmed, hquiet⟩ := aborted_after hC hC' hstate hS
          have hN : N + 1 = T + (p.cycle / 2 + 2) := by omega
          refine .free rs hrs ?_ (fun r hr => ?_) (Or.inl ?_)
          · rw [hN, hquiet _ (Nat.le_refl _), hshown]
          · have := hlast r hr
            omega
          · rw [hN]
            exact harmed
        · -- the end of the frame
          rw [if_neg hS] at heq
          obtain ⟨b, hb⟩ := exists_reads (p := p) (by simpa using hS)
          have hcells : (p.dataWidth + 2) * p.cycle = (p.dataWidth + 1) * p.cycle + p.cycle := by
            ring
          have hN : N + 1 = T + ((p.dataWidth + 2) * p.cycle + 1) := by omega
          refine .free (rs ++ [(T, b)]) (hrs.concat ⟨hlate, hlow, hb⟩ hlast) ?_ (fun r hr => ?_)
            (Or.inr ?_)
          · rw [hN, shown_receiving hstate hw0 hw hC hC' hon hb (Nat.le_refl _), hshown,
              if_pos (by omega), List.map_append]
            rfl
          · rcases List.mem_append.1 hr with hmem | hmem
            · have := hlast r hmem
              omega
            · obtain rfl := List.mem_singleton.1 hmem
              exact Nat.le_of_eq hN.symm
          · rw [hN]
            exact finished_after hstate hw0 hw hC hC' hon hb
      · exact .busy rs hrs T (Nat.le_succ_of_le hT) hshown hlast hlate hlow hstate
          (Nat.succ_le_of_lt hlt)

variable (line) in
/-- Whatever the line does, everything shown was read off it, each word at least a frame and two
clocks after the one before. -/
theorem readings (hs : Ready s) (N : ℕ) :
    ∃ rs, Readings p line rs ∧ s.shown line N = rs.map Prod.snd := by
  cases phase_after hw0 hw hC hC' hon hs N with
  | free rs hrs hshown hlast hstate => exact ⟨rs, hrs, hshown⟩
  | busy rs hrs T hT hshown hlast hlate hlow hstate hend =>
    obtain ⟨x, rfl⟩ := Nat.exists_eq_add_of_le hT
    by_cases hS : line (T + p.cycle / 2 - 1) = true
    · rw [if_pos hS] at hend
      refine ⟨rs, hrs, ?_⟩
      rw [(aborted_after hC hC' hstate hS).2 x (by omega), hshown]
    · rw [if_neg hS] at hend
      obtain ⟨b, hb⟩ := exists_reads (p := p) (by simpa using hS)
      have hword := shown_receiving hstate hw0 hw hC hC' hon hb (x := x) (by omega)
      split_ifs at hword with hlate'
      · refine ⟨rs ++ [(T, b)], hrs.concat ⟨hlate, hlow, hb⟩ hlast, ?_⟩
        rw [hword, hshown, List.map_append]
        rfl
      · exact ⟨rs, hrs, by rw [hword, hshown, List.append_nil]⟩

end Readings

end Vcil.Rtl.UartRx
