import Mathlib.Data.Int.Log
import Mathlib.Data.Rat.Floor
import NoiseTimeline.Chart.Layout
import NoiseTimeline.Proofs.Number.Shortest

/-! The axis of clock cycles, laid out by the same definitions as a drawn one but in exact
arithmetic. Its step is rounded up, its end is the first multiple of the step that covers the data,
and the loop over its ticks stops there after at most six of them. -/

namespace NoiseTimeline

/-- The value of a number. By the rule for the finite numbers the infinities lie beyond all of them.
NaN is no number, and what the rule gives for it means nothing. -/
def Binary64.value (x : Binary64) : ℚ := if x.isNegative then -x.magnitude else x.magnitude

/-- Exact arithmetic. -/
instance : Scalar ℚ where
  ofRatio num den := num / den
  ofProbability := Binary64.value
  le x y := x ≤ y
  ceil x := ⌈x⌉
  decade x := 10 ^ Int.log 10 x

namespace Scalar

theorem ofNat_eq (n : ℕ) : (ofNat n : ℚ) = n :=
  (congrArg ((n : ℚ) / ·) Nat.cast_one).trans (div_one _)

theorem le_iff {x y : ℚ} : le x y = true ↔ x ≤ y := decide_eq_true_iff

theorem le_eq_false_iff {x y : ℚ} : le x y = false ↔ y < x := decide_eq_false_iff_not.trans not_le

theorem max_eq (x y : ℚ) : Scalar.max x y = Max.max x y := by
  simp only [Scalar.max, le_iff]
  exact (max_def x y).symm

theorem clampUnit_mem (x : ℚ) : clampUnit x ∈ Set.Icc (0 : ℚ) 1 := by
  have hlt : ∀ a b : ℚ, lt a b = true ↔ a < b := by
    intro a b
    rw [lt, Bool.and_eq_true, Bool.not_eq_true', le_iff, le_eq_false_iff]
    exact ⟨And.right, fun h => ⟨h.le, h⟩⟩
  simp only [clampUnit, hlt, ofNat_eq, Nat.cast_zero, Nat.cast_one]
  split
  · exact ⟨le_refl _, zero_le_one⟩
  split
  · exact ⟨zero_le_one, le_refl _⟩
  · exact ⟨not_lt.mp ‹_›, not_lt.mp ‹_›⟩

end Scalar

namespace Chart

open Scalar

variable {raw step x : ℚ} {most : ℕ}

/-- One, two or five times a power of ten. -/
def IsRound (x : ℚ) : Prop := ∃ d : ℕ, d ∈ [1, 2, 5] ∧ ∃ k : ℤ, x = d * 10 ^ k

theorem isRound_one : IsRound 1 := ⟨1, by simp, 0, by norm_num⟩

theorem decade_le (hraw : 0 < raw) : (10 : ℚ) ^ Int.log 10 raw ≤ raw := by
  exact_mod_cast Int.zpow_log_le_self (b := 10) (by norm_num) hraw

theorem lt_next_decade (raw : ℚ) : raw < 10 ^ (Int.log 10 raw + 1) := by
  exact_mod_cast Int.lt_zpow_succ_log_self (b := 10) (by norm_num) raw

/-- No round number lies between five times a decade and the next one. -/
theorem IsRound.cases_of_le (hx : IsRound x) (hraw : 0 < raw) (hle : raw ≤ x) :
    (∃ d : ℕ, d ∈ [1, 2, 5] ∧ x = d * 10 ^ Int.log 10 raw) ∨ 10 ^ (Int.log 10 raw + 1) ≤ x := by
  obtain ⟨d, hd, k, rfl⟩ := hx
  have hone : 1 ≤ d ∧ d ≤ 5 := by
    simp only [List.mem_cons, List.not_mem_nil, or_false] at hd
    omega
  have hlow : (1 : ℚ) ≤ d := by exact_mod_cast hone.1
  have hhigh : (d : ℚ) ≤ 5 := by exact_mod_cast hone.2
  have hpow : (0 : ℚ) < 10 ^ k := by positivity
  rcases lt_trichotomy k (Int.log 10 raw) with hk | rfl | hk
  · -- five times a smaller power of ten stays below the decade
    have hnext : (10 : ℚ) ^ (k + 1) ≤ 10 ^ Int.log 10 raw := zpow_le_zpow_right₀ (by norm_num) hk
    rw [zpow_add_one₀ (by norm_num)] at hnext
    have hdecade := decade_le hraw
    nlinarith
  · exact .inl ⟨d, hd, rfl⟩
  · right
    calc (10 : ℚ) ^ (Int.log 10 raw + 1) ≤ 10 ^ k := zpow_le_zpow_right₀ (by norm_num) hk
      _ ≤ d * 10 ^ k := le_mul_of_one_le_left hpow.le hlow

theorem niceStep_eq (hraw : 0 < raw) :
    niceStep raw =
      if raw ≤ 10 ^ Int.log 10 raw then 10 ^ Int.log 10 raw
      else if raw ≤ 2 * 10 ^ Int.log 10 raw then 2 * 10 ^ Int.log 10 raw
      else if raw ≤ 5 * 10 ^ Int.log 10 raw then 5 * 10 ^ Int.log 10 raw
      else 10 ^ (Int.log 10 raw + 1) := by
  have hpow : (0 : ℚ) < 10 ^ Int.log 10 raw := by positivity
  have hscaled : ∀ n : ℕ, le (raw / 10 ^ Int.log 10 raw) (ofNat n) = true ↔
      raw ≤ n * 10 ^ Int.log 10 raw := by
    intro n
    rw [le_iff, ofNat_eq, div_le_iff₀ hpow]
  have hpositive : ¬ le raw (ofNat 0) = true := by
    rw [le_iff, ofNat_eq, Nat.cast_zero]
    exact not_le.mpr hraw
  rw [niceStep, if_neg hpositive]
  change ofNat (if le (raw / 10 ^ Int.log 10 raw) (ofNat 1) then 1
    else if le (raw / 10 ^ Int.log 10 raw) (ofNat 2) then 2
    else if le (raw / 10 ^ Int.log 10 raw) (ofNat 5) then 5 else 10) * (10 : ℚ) ^ Int.log 10 raw = _
  simp only [hscaled]
  rw [Nat.cast_one, one_mul, Nat.cast_ofNat, Nat.cast_ofNat, ofNat_eq]
  split_ifs
  · rw [Nat.cast_one, one_mul]
  · rw [Nat.cast_ofNat]
  · rw [Nat.cast_ofNat]
  · rw [zpow_add_one₀ (by norm_num), Nat.cast_ofNat, mul_comm]

theorem niceStep_isLeast (hraw : 0 < raw) : IsLeast {x | IsRound x ∧ raw ≤ x} (niceStep raw) := by
  have hpow : (0 : ℚ) < 10 ^ Int.log 10 raw := by positivity
  have hnext : (10 : ℚ) ^ (Int.log 10 raw + 1) = 10 ^ Int.log 10 raw * 10 :=
    zpow_add_one₀ (by norm_num) _
  rw [niceStep_eq hraw]
  constructor
  · split_ifs with hone htwo hfive
    · exact ⟨⟨1, by simp, _, (one_mul _).symm⟩, hone⟩
    · exact ⟨⟨2, by simp, _, rfl⟩, htwo⟩
    · exact ⟨⟨5, by simp, _, rfl⟩, hfive⟩
    · exact ⟨⟨1, by simp, _, (one_mul _).symm⟩, (lt_next_decade raw).le⟩
  · rintro x ⟨hx, hle⟩
    rcases hx.cases_of_le hraw hle with ⟨d, hd, rfl⟩ | hx
    · simp only [List.mem_cons, List.not_mem_nil, or_false] at hd
      rcases hd with rfl | rfl | rfl <;> push_cast at hle ⊢ <;> split_ifs <;> linarith
    · split_ifs <;> linarith

theorem xStep_isLeast (most : ℕ) :
    IsLeast {x | IsRound x ∧ Max.max 1 ((most : ℚ) / 5) ≤ x} (xStep (most : ℚ)) := by
  have hstep : xStep (most : ℚ) = Max.max (niceStep ((most : ℚ) / 5)) 1 := by
    rw [xStep, max_eq, ofNat_eq, ofNat_eq]
    simp only [Nat.cast_one, Nat.cast_ofNat]
  rw [hstep]
  rcases Nat.eq_zero_or_pos most with rfl | hmost
  · -- zero has no decade
    have hone : niceStep (((0 : ℕ) : ℚ) / 5) = 1 := by
      rw [niceStep, if_pos (le_iff.mpr (by simp [ofNat_eq])), ofNat_eq, Nat.cast_one]
    rw [hone, max_self]
    exact ⟨⟨isRound_one, by simp⟩, fun x hx => (le_max_left _ _).trans hx.2⟩
  · have hraw : (0 : ℚ) < most / 5 := by positivity
    obtain ⟨⟨hround, hle⟩, hleast⟩ := niceStep_isLeast hraw
    constructor
    · refine ⟨?_, max_le (le_max_right _ _) (hle.trans (le_max_left _ _))⟩
      rcases max_choice (niceStep ((most : ℚ) / 5)) 1 with h | h
      · rwa [h]
      · rw [h]
        exact isRound_one
    · rintro x ⟨hx, hle⟩
      exact max_le (hleast ⟨hx, (le_max_right _ _).trans hle⟩) ((le_max_left _ _).trans hle)

/-- How many steps the axis has. -/
def stepCount (most : ℕ) (step : ℚ) : ℕ := Max.max ⌈(most : ℚ) / step⌉₊ 1

theorem stepCount_le_iff (hstep : 0 < step) {n : ℕ} (hn : 0 < n) :
    stepCount most step ≤ n ↔ (most : ℚ) ≤ n * step := by
  rw [stepCount, max_le_iff, Nat.ceil_le, div_le_iff₀ hstep]
  exact and_iff_left hn

theorem stepCount_pos : 0 < stepCount most step := Nat.lt_of_lt_of_le Nat.one_pos (le_max_right _ _)

theorem xEnd_eq (hstep : 0 < step) : xEnd (most : ℚ) step = stepCount most step * step := by
  have hceil : (⌈(most : ℚ) / step⌉ : ℚ) = (⌈(most : ℚ) / step⌉₊ : ℚ) :=
    (natCast_ceil_eq_intCast_ceil (by positivity)).symm
  calc xEnd (most : ℚ) step = Max.max (⌈(most : ℚ) / step⌉ * step) step := max_eq _ _
    _ = Max.max (⌈(most : ℚ) / step⌉₊ : ℚ) 1 * step := by
      rw [hceil, max_mul_of_nonneg _ _ hstep.le, one_mul]
    _ = stepCount most step * step := by
      rw [stepCount, Nat.cast_max, Nat.cast_one]

theorem xEnd_isLeast (hstep : 0 < step) :
    IsLeast {x | (∃ n : ℕ, 0 < n ∧ x = n * step) ∧ (most : ℚ) ≤ x} (xEnd (most : ℚ) step) := by
  rw [xEnd_eq hstep]
  constructor
  · exact ⟨⟨_, stepCount_pos, rfl⟩, (stepCount_le_iff hstep stepCount_pos).mp le_rfl⟩
  · rintro x ⟨⟨n, hn, rfl⟩, hle⟩
    have hcount : stepCount most step ≤ n := (stepCount_le_iff hstep hn).mpr hle
    gcongr

section Loop

variable {α : Type} [Scalar α] {last step tick : α} {ticks : List α}

/-- The loop over the ticks, which passes while the tick is at most half a step beyond the end,
comes from `tick` to its own end after the passes `ticks`. -/
inductive TickLoop (last step : α) : α → List α → Prop where
  | done {tick : α} (h : le tick (last + step / ofNat 2) = false) : TickLoop last step tick []
  | pass {tick : α} {ticks : List α} (h : le tick (last + step / ofNat 2) = true)
      (hrest : TickLoop last step (tick + step) ticks) : TickLoop last step tick (tick :: ticks)

theorem TickLoop.ticksFrom_eq (h : TickLoop last step tick ticks) {fuel : ℕ}
    (hfuel : ticks.length ≤ fuel) :
    ticksFrom last step fuel tick = ticks := by
  induction h generalizing fuel with
  | done h =>
    cases fuel with
    | zero => rfl
    | succ fuel => rw [ticksFrom, h, if_neg Bool.false_ne_true]
  | pass h _ ih =>
    cases fuel with
    | zero => exact absurd hfuel (Nat.not_succ_le_zero _)
    | succ fuel => rw [ticksFrom, if_pos h, ih (Nat.le_of_succ_le_succ hfuel)]

end Loop

/-- From a multiple of the step on, the loop passes each multiple up to the end. -/
theorem tickLoop_from (hstep : 0 < step) {n first count : ℕ} (h : first + count = n + 1) :
    TickLoop (n * step) step (first * step)
      ((List.range' first count).map fun i : ℕ => (i : ℚ) * step) := by
  have hlimit : ∀ tick : ℚ, le tick (n * step + step / ofNat 2) = true ↔
      tick ≤ n * step + step / 2 := by
    intro tick
    rw [le_iff, ofNat_eq, Nat.cast_ofNat]
  -- the limit lies half a step beyond the last multiple and half a step before the next one
  induction count generalizing first with
  | zero =>
    obtain rfl : first = n + 1 := h
    apply TickLoop.done
    rw [Bool.eq_false_iff, Ne, hlimit, not_le]
    push_cast
    linarith
  | succ count ih =>
    rw [List.range'_succ, List.map_cons]
    apply TickLoop.pass
    · have hfirst : (first : ℚ) * step ≤ n * step := by
        have hle : first ≤ n := by omega
        gcongr
      rw [hlimit]
      linarith
    · have hnext : (first : ℚ) * step + step = (first + 1 : ℕ) * step := by
        push_cast
        ring
      rw [hnext]
      exact ih (by omega)

/-- The multiples of the step from zero on. -/
def multiples (n : ℕ) (step : ℚ) : List ℚ := (List.range (n + 1)).map fun i : ℕ => (i : ℚ) * step

theorem length_multiples (n : ℕ) (step : ℚ) : (multiples n step).length = n + 1 := by
  rw [multiples, List.length_map, List.length_range]

theorem getLast?_multiples (n : ℕ) (step : ℚ) : (multiples n step).getLast? = some (n * step) := by
  rw [multiples, List.range_succ, List.map_append, List.map_singleton, List.getLast?_concat]

theorem tickLoop_multiples (hstep : 0 < step) (n : ℕ) :
    TickLoop (n * step) step 0 (multiples n step) := by
  have hall := tickLoop_from hstep (zero_add (n + 1))
  rwa [Nat.cast_zero, zero_mul, ← List.range_eq_range'] at hall

theorem xStep_pos (most : ℕ) : 0 < xStep (most : ℚ) :=
  zero_lt_one.trans_le ((le_max_left _ _).trans (xStep_isLeast most).1.2)

theorem stepCount_le_five (most : ℕ) : stepCount most (xStep (most : ℚ)) ≤ 5 := by
  have hfifth : (most : ℚ) / 5 ≤ xStep (most : ℚ) :=
    (le_max_right _ _).trans (xStep_isLeast most).1.2
  rw [stepCount_le_iff (xStep_pos most) (by norm_num)]
  push_cast
  linarith

theorem tickLoop_axis (most : ℕ) :
    TickLoop (xEnd (most : ℚ) (xStep (most : ℚ))) (xStep (most : ℚ)) 0
      (multiples (stepCount most (xStep (most : ℚ))) (xStep (most : ℚ))) := by
  rw [xEnd_eq (xStep_pos most)]
  exact tickLoop_multiples (xStep_pos most) _

end Chart

end NoiseTimeline
