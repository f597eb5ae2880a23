import Vcil.Rtl.UartRxLine

/-!
# Line noise at `uart_rx`

A glitch either misses the detector, which wants five low levels in a row, or starts the baud
counter; then the line is high again in the middle of the start bit, and the receiver is armed
before the next glitch comes.

* `Noise cycle wave`: the low runs of `wave` are shorter than half a bit, and a bit apart;
* `Noise.high_again`: what such a line does after five low levels;
* `Listening`: the receiver is armed, or in a start bit that will fail;
* `rejects_noise`: from reset nothing is shown, and the receiver is ready for a frame afterwards.
-/

namespace Vcil.Rtl.UartRx

open Clocked

/-! ### The waveform -/

/-- Low runs of less than `cycle / 2` levels, with `cycle` or more high levels between any two. -/
structure Noise (cycle : ℕ) (wave : List Bool) : Prop where
  short : ∀ a n, (∀ k < n, wave[a + k]? = some false) → 2 * n < cycle
  apart : ∀ a n, 0 < n → wave[a]? = some false → (∀ k < n, wave[a + 1 + k]? = some true) →
    wave[a + 1 + n]? = some false → cycle ≤ n

section Waveform

variable {cycle : ℕ} {wave : List Bool}

theorem extend_eq_false_iff {k : ℕ} : extend true wave k = false ↔ wave[k]? = some false := by
  rw [extend, List.getD_eq_getElem?_getD]
  cases wave[k]? <;> simp

set_option synthInstance.maxSize 512 in
/-- Only the levels of the waveform need looking at, and only the shortest forbidden low run. -/
instance : Decidable (Noise cycle wave) :=
  decidable_of_iff
    ((∀ a < wave.length + 1, ¬∀ k < (cycle + 1) / 2, wave[a + k]? = some false) ∧
      ∀ a < wave.length, wave[a]? = some false → ∀ n < wave.length,
        wave[a + 1 + n]? = some false → 0 < n → (∀ k < n, wave[a + 1 + k]? = some true) →
          cycle ≤ n) <| by
    have hbound : ∀ {k level}, wave[k]? = some level → k < wave.length := fun h =>
      (List.getElem?_eq_some_iff.1 h).1
    constructor
    · rintro ⟨hshort, hapart⟩
      constructor
      · intro a n hlow
        by_contra hlong
        rcases Nat.eq_zero_or_pos ((cycle + 1) / 2) with hzero | hpos
        · exact hshort 0 (Nat.succ_pos _) fun k hk => by omega
        · have := hbound (hlow 0 (by omega))
          exact hshort a (by omega) fun k hk => hlow k (by omega)
      · intro a n hn ha hhigh hb
        have := hbound hb
        exact hapart a (by omega) ha n (by omega) hb hn hhigh
    · intro h
      refine ⟨fun a _ hlow => ?_, fun a _ ha n _ hb hn hhigh => h.apart a n hn ha hhigh hb⟩
      have := h.short a ((cycle + 1) / 2) hlow
      omega

/-- Between two low levels with a high one between them lies a whole bit. -/
theorem Noise.gap (h : Noise cycle wave) {a b c : ℕ} (hac : a < c) (hcb : c < b)
    (ha : extend true wave a = false) (hc : extend true wave c = true)
    (hb : extend true wave b = false) : a + cycle < b := by
  obtain ⟨d, hd⟩ : ∃ d, d = b - a := ⟨_, rfl⟩
  induction d using Nat.strong_induction_on generalizing a b with
  | h d ih =>
    by_cases hlow : ∃ m, a < m ∧ m < b ∧ extend true wave m = false
    · -- a closer pair around the high level
      obtain ⟨m, ham, hmb, hm⟩ := hlow
      rcases Nat.lt_trichotomy m c with hlt | rfl | hgt
      · have := ih (b - m) (by omega) hlt hcb hm hb rfl
        omega
      · rw [hc] at hm
        exact Bool.noConfusion hm
      · have := ih (m - a) (by omega) hac hgt ha hm rfl
        omega
    · have hhigh : ∀ k < b - a - 1, wave[a + 1 + k]? = some true := by
        intro k hk
        have hlen : b < wave.length := (List.getElem?_eq_some_iff.1 (extend_eq_false_iff.1 hb)).1
        have hne : extend true wave (a + 1 + k) ≠ false := fun hf =>
          hlow ⟨a + 1 + k, by omega, by omega, hf⟩
        rw [Ne, extend_eq_false_iff, List.getElem?_eq_getElem (by omega)] at hne
        rw [List.getElem?_eq_getElem (by omega)]
        simpa using hne
      have := h.apart a (b - a - 1) (by omega) (extend_eq_false_iff.1 ha) hhigh (by
        rw [show a + 1 + (b - a - 1) = b by omega]
        exact extend_eq_false_iff.1 hb)
      omega

/-- Half a bit after five low levels the line is high, until a bit has passed. -/
theorem Noise.high_again (h : Noise cycle wave) {a m : ℕ}
    (hlow : ∀ k < 5, extend true wave (a + k) = false) (hm : cycle ≤ 2 * m + 1)
    (hm' : m ≤ cycle + 4) : extend true wave (a + m) = true := by
  by_contra hfalse
  have hend : extend true wave (a + m) = false := by simpa using hfalse
  -- the low levels do not go on from `a` to `a + m`
  obtain ⟨k, hk, hhigh⟩ : ∃ k < m + 1, extend true wave (a + k) = true := by
    by_contra hnone
    have := h.short a (m + 1) fun k hk => extend_eq_false_iff.1 (by
      simpa using fun hk' => hnone ⟨k, hk, hk'⟩)
    omega
  have hk5 : 5 ≤ k := by
    by_contra hlt
    rw [hlow k (by omega)] at hhigh
    exact Bool.noConfusion hhigh
  have hkm : k ≠ m := by
    rintro rfl
    rw [hend] at hhigh
    exact Bool.noConfusion hhigh
  have := h.gap (a := a + 4) (b := a + m) (c := a + k) (by omega) (by omega) (hlow 4 (by decide))
    hhigh hend
  omega

end Waveform

/-! ### The receiver -/

variable {p : UartParams} {s : UartRx p} {wave : List Bool}

/-- Nothing has been shown before clock `N`, and the receiver is armed, or it has taken a start bit
to have begun in clock `T`, and will find it too short. -/
inductive Listening (s : UartRx p) (line : ℕ → Bool) (N : ℕ) : Prop
  | armed (hstate : Armed (s.after line N)) (hshown : s.shown line N = [])
  | busy (T : ℕ) (hT : T ≤ N) (hend : N ≤ T + p.cycle / 2 + 1) (hlate : 7 ≤ T)
      (hlow : ∀ k < 5, line (T - 7 + k) = false) (hstate : Detected (s.after line T))
      (hshown : s.shown line T = [])

section Noisy

variable (hC : 32 ≤ p.cycle) (hC' : p.cycle ≤ 65536) (hs : Ready s) (hw : Noise p.cycle wave)
include hC hC' hw

/-- The middle of the start bit is high. -/
theorem mid_high {T : ℕ} (hlate : 7 ≤ T)
    (hlow : ∀ k < 5, extend true wave (T - 7 + k) = false) :
    extend true wave (T + p.cycle / 2 - 1) = true := by
  have h := hw.high_again (m := p.cycle / 2 + 6) hlow (by omega) (by omega)
  rwa [show T - 7 + (p.cycle / 2 + 6) = T + p.cycle / 2 - 1 by omega] at h

include hs

theorem listening_after (N : ℕ) : Listening s (extend true wave) N := by
  induction N with
  | zero => exact .armed hs.toArmed rfl
  | succ N ih =>
    cases ih with
    | armed hstate hshown =>
      obtain ⟨hfound | harmed, hsame⟩ := free_succ (by omega) hs (Or.inl hstate)
      · obtain ⟨hlate, hlow, hD⟩ := hfound
        exact .busy (N + 1) (Nat.le_refl _) (by omega) hlate hlow hD (hsame.trans hshown)
      · exact .armed harmed (hsame.trans hshown)
    | busy T hT hend hlate hlow hstate hshown =>
      rcases Nat.eq_or_lt_of_le hend with heq | hlt
      · obtain ⟨harmed, hquiet⟩ :=
          aborted_after (by omega) hC' hstate (mid_high hC hC' hw hlate hlow)
        have hN : N + 1 = T + (p.cycle / 2 + 2) := by omega
        refine .armed ?_ ?_
        · rw [hN]
          exact harmed
        · rw [hN, hquiet _ (Nat.le_refl _), hshown]
      · exact .busy T (by omega) (by omega) hlate hlow hstate hshown

theorem shown_noise (N : ℕ) : s.shown (extend true wave) N = [] := by
  cases listening_after hC hC' hs hw N with
  | armed hstate hshown => exact hshown
  | busy T hT hend hlate hlow hstate hshown =>
    obtain ⟨x, rfl⟩ := Nat.exists_eq_add_of_le hT
    have hmid := mid_high hC hC' hw hlate hlow
    rw [(aborted_after (by omega) hC' hstate hmid).2 x (by omega), hshown]

/-- When the line has been high for a bit, a frame may begin. -/
theorem ready_noise : Ready (s.after (extend true wave) (wave.length + p.cycle)) := by
  have harmed : Armed (s.after (extend true wave) (wave.length + p.cycle)) := by
    cases listening_after hC hC' hs hw (wave.length + p.cycle) with
    | armed hstate hshown => exact hstate
    | busy T hT hend hlate hlow hstate hshown =>
      -- the last low level is in the waveform, and the start bit has failed since
      have hlast := hlow 4 (by decide)
      rcases Nat.lt_or_ge (T - 7 + 4) wave.length with hlt | hge
      · omega
      · rw [extend_end true hge] at hlast
        exact Bool.noConfusion hlast
  obtain ⟨n, hn⟩ : ∃ n, wave.length + p.cycle = n + 6 := ⟨wave.length + p.cycle - 6, by omega⟩
  rw [hn] at harmed ⊢
  exact harmed.ready fun k _ => extend_end true (by omega)

end Noisy

/-! ### The outputs -/

/-- The data output changes only when `o_rx_done` rises. -/
theorem step_oUartData {i : Bool} (h : (s.step i).oRxDone = false) :
    (s.step i).oUartData = s.oUartData := by
  have hdone : s.output.oRxDone = false := h
  show s.output.oUartData = s.oUartData
  unfold output at hdone ⊢
  cases hst : s.rCurrentState with
  | stateIdle => rfl
  | stateStart => rfl
  | stateData => cases hp : s.baudPulse <;> rfl
  | stateParity => cases hp : s.baudPulse <;> rfl
  | stateEnd =>
    cases hp : s.baudPulse
    · rfl
    · by_cases hon : p.parityOn = 0 ∨ s.oLdParity
      · simp [hst, hp, hon] at hdone
      · simp [hon]

/-- As long as nothing is shown, the outputs stay as they are. -/
theorem outputs_after {line : ℕ → Bool} (hs : s.oRxDone = false) (h : ∀ N, s.shown line N = [])
    (N : ℕ) : (s.after line N).oRxDone = false ∧ (s.after line N).oUartData = s.oUartData := by
  induction N with
  | zero => exact ⟨hs, rfl⟩
  | succ N ih =>
    have hnone : (s.after line (N + 1)).done? = none := by
      have hsucc := shown_succ s line N
      rw [h, h, List.nil_append] at hsucc
      simpa using hsucc.symm
    have hdone : (s.after line (N + 1)).oRxDone = false := by
      simpa [done?] using hnone
    exact ⟨hdone, (step_oUartData hdone).trans ih.2⟩

/-- From reset, noise makes the receiver show nothing, at any bit period; after a bit of high level
the receiver waits for a frame. -/
theorem rejects_noise {p : UartParams} (hC : 32 ≤ p.cycle) (hC' : p.cycle ≤ 65536)
    {wave : List Bool} (hw : Noise p.cycle wave) :
    (∀ levels, levels <+: wave ++ List.replicate p.cycle true →
      (run step (reset : UartRx p) levels).oRxDone = false ∧
        (run step (reset : UartRx p) levels).oUartData = (reset : UartRx p).oUartData) ∧
      (run step (reset : UartRx p) (wave ++ List.replicate p.cycle true)).rCurrentState =
        .stateIdle ∧
      (run step (reset : UartRx p) (wave ++ List.replicate p.cycle true)).baudValid = false ∧
      (run step (reset : UartRx p) (wave ++ List.replicate p.cycle true)).baudCnt = 0 ∧
      Ready (run step (reset : UartRx p) (wave ++ List.replicate p.cycle true)) := by
  have hready : Ready (run step (reset : UartRx p) (wave ++ List.replicate p.cycle true)) := by
    rw [← history_extend_add, ← trace_eq_run]
    exact ready_noise hC hC' ready_reset hw
  refine ⟨fun levels hpre => ?_, hready.state, hready.valid, hready.cnt, hready⟩
  have hafter : run step (reset : UartRx p) levels =
      reset.after (extend true wave) levels.length := by
    rw [after, trace_eq_run, ← extend_append_replicate true wave p.cycle,
      history_extend_prefix true hpre]
  rw [hafter]
  exact outputs_after rfl (shown_noise hC hC' ready_reset hw) _

/-- Two glitches, the first of which starts the baud counter, and is as long as it may be. -/
theorem noise_glitches : Noise 32
    (List.replicate 15 false ++ List.replicate 32 true ++ List.replicate 3 false) := by
  decide +kernel

theorem rejects_noise_glitches :
    (run step (reset : UartRx ⟨32, 8, 0, 0⟩)
      (List.replicate 15 false ++ List.replicate 32 true ++ List.replicate 3 false ++
        List.replicate 32 true)).baudValid = false :=
  (rejects_noise (p := ⟨32, 8, 0, 0⟩) (by decide) (by decide) noise_glitches).2.2.1

end Vcil.Rtl.UartRx
