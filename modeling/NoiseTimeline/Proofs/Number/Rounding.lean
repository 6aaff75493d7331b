import Mathlib.Algebra.Order.Field.Power
import Mathlib.Data.Rat.Cast.Order
import Mathlib.Tactic
import NoiseTimeline.Number.Binary64
import NoiseTimeline.Number.Decimal

/-! Rounding to the nearest number. A quotient inside the interval around a
finite number rounds to that number, and so do the ends of the interval if
the significand is even. -/

namespace NoiseTimeline

theorem zpow_eq_toNat_div (b : ℚ) (e : ℤ) : b ^ e = b ^ e.toNat / b ^ (-e).toNat := by
  rcases le_total 0 e with he | he
  · obtain ⟨n, rfl⟩ := Int.eq_ofNat_of_zero_le he
    simp
  · obtain ⟨n, hn⟩ := Int.eq_ofNat_of_zero_le (show 0 ≤ -e by omega)
    have he' : e = -(n : ℤ) := by omega
    subst he'
    simp

namespace Binary64

theorem scaled_ratio (num den : Nat) (e : ℤ) :
    ((scaled num den e).1 : ℚ) / (scaled num den e).2 = (num / den : ℚ) / 2 ^ e := by
  rw [zpow_eq_toNat_div 2 e, scaled]
  simp only [Nat.pow_eq]
  push_cast
  field_simp

theorem scaled_den_pos {num den : Nat} (hden : 0 < den) (e : ℤ) : 0 < (scaled num den e).2 := by
  rw [scaled]
  simp only [Nat.pow_eq]
  positivity

theorem log2_sub_bounds {num den : Nat} (hnum : 0 < num) (hden : 0 < den) :
    (2 : ℚ) ^ ((num.log2 : ℤ) - den.log2 - 1) ≤ num / den ∧
      (num / den : ℚ) < 2 ^ ((num.log2 : ℤ) - den.log2 + 1) := by
  have hd : (0 : ℚ) < den := by exact_mod_cast hden
  have hn1 : (2 : ℚ) ^ num.log2 ≤ num := by exact_mod_cast Nat.log2_self_le hnum.ne'
  have hn2 : (num : ℚ) < 2 ^ (num.log2 + 1) := by exact_mod_cast Nat.lt_log2_self
  have hd1 : (2 : ℚ) ^ den.log2 ≤ den := by exact_mod_cast Nat.log2_self_le hden.ne'
  have hd2 : (den : ℚ) < 2 ^ (den.log2 + 1) := by exact_mod_cast Nat.lt_log2_self
  rw [le_div_iff₀ hd, div_lt_iff₀ hd]
  constructor
  · calc (2 : ℚ) ^ ((num.log2 : ℤ) - den.log2 - 1) * den
        ≤ 2 ^ ((num.log2 : ℤ) - den.log2 - 1) * 2 ^ (den.log2 + 1) := by gcongr
      _ = 2 ^ num.log2 := by
        rw [← zpow_natCast, ← zpow_natCast, ← zpow_add₀ two_ne_zero]
        congr 1
        push_cast
        ring
      _ ≤ num := hn1
  · calc (num : ℚ) < 2 ^ (num.log2 + 1) := hn2
      _ = 2 ^ ((num.log2 : ℤ) - den.log2 + 1) * 2 ^ den.log2 := by
        rw [← zpow_natCast, ← zpow_natCast, ← zpow_add₀ two_ne_zero]
        congr 1
        push_cast
        ring
      _ ≤ 2 ^ ((num.log2 : ℤ) - den.log2 + 1) * den := by gcongr

theorem ratioLog_bounds {num den : Nat} (hnum : 0 < num) (hden : 0 < den) :
    (2 : ℚ) ^ ratioLog num den ≤ num / den ∧ (num / den : ℚ) < 2 ^ (ratioLog num den + 1) := by
  obtain ⟨hlow, hhigh⟩ := log2_sub_bounds hnum hden
  have hr := scaled_ratio num den ((num.log2 : ℤ) - den.log2)
  have hs : (0 : ℚ) < (scaled num den ((num.log2 : ℤ) - den.log2)).2 := by
    exact_mod_cast scaled_den_pos hden _
  have hp : (0 : ℚ) < 2 ^ ((num.log2 : ℤ) - den.log2) := by positivity
  unfold ratioLog
  dsimp only
  split
  · rename_i hle
    refine ⟨?_, hhigh⟩
    have h1 : (1 : ℚ) ≤ (num / den : ℚ) / 2 ^ ((num.log2 : ℤ) - den.log2) := by
      rw [← hr, one_le_div hs]
      exact_mod_cast hle
    rwa [one_le_div hp] at h1
  · rename_i hlt
    refine ⟨hlow, ?_⟩
    have h1 : (num / den : ℚ) / 2 ^ ((num.log2 : ℤ) - den.log2) < 1 := by
      rw [← hr, div_lt_one hs]
      exact_mod_cast not_le.mp hlt
    rw [div_lt_one hp] at h1
    simpa using h1

theorem ratioLog_eq {num den : Nat} (hnum : 0 < num) (hden : 0 < den) {e : ℤ}
    (hlow : (2 : ℚ) ^ e ≤ num / den) (hhigh : (num / den : ℚ) < 2 ^ (e + 1)) :
    ratioLog num den = e := by
  obtain ⟨h1, h2⟩ := ratioLog_bounds hnum hden
  have h3 := (zpow_lt_zpow_iff_right₀ (one_lt_two (α := ℚ))).mp (hlow.trans_lt h2)
  have h4 := (zpow_lt_zpow_iff_right₀ (one_lt_two (α := ℚ))).mp (h1.trans_lt hhigh)
  omega

theorem ratioLog_lt {num den : Nat} (hnum : 0 < num) (hden : 0 < den) {e : ℤ}
    (hhigh : (num / den : ℚ) < 2 ^ e) : ratioLog num den < e :=
  (zpow_lt_zpow_iff_right₀ (one_lt_two (α := ℚ))).mp ((ratioLog_bounds hnum hden).1.trans_lt hhigh)

theorem roundDiv_eq {n d m : Nat} (hd : 0 < d) (hlow : 2 * m * d ≤ 2 * n + d)
    (hhigh : 2 * n ≤ (2 * m + 1) * d)
    (hties : m % 2 = 0 ∨ 2 * m * d < 2 * n + d ∧ 2 * n < (2 * m + 1) * d) : roundDiv n d = m := by
  have hn := Nat.div_add_mod n d
  have hr := Nat.mod_lt n hd
  generalize hq : n / d = q at hn
  generalize hrem : n % d = r at hn hr
  have hq1 : q ≤ m := by
    by_contra hlt
    have : d * (m + 1) ≤ d * q := Nat.mul_le_mul_left d (by omega)
    nlinarith
  have hq2 : m ≤ q + 1 := by
    by_contra hlt
    have : d * (q + 2) ≤ d * m := Nat.mul_le_mul_left d (by omega)
    nlinarith
  unfold roundDiv
  simp only [hq, hrem]
  obtain rfl | rfl : m = q ∨ m = q + 1 := by omega
  · have h1 : 2 * r ≤ d := by nlinarith
    rcases hties with heven | ⟨-, hstrict⟩
    · split_ifs <;> omega
    · have h2 : 2 * r < d := by nlinarith
      split_ifs <;> omega
  · have h1 : d ≤ 2 * r := by nlinarith
    rcases hties with heven | ⟨hstrict, -⟩
    · split_ifs <;> omega
    · have h2 : d < 2 * r := by nlinarith
      rw [if_pos h2]

theorem roundDiv_eq_of_near {n d m : Nat} (hd : 0 < d) (hlow : (m : ℚ) - 1 / 2 ≤ n / d)
    (hhigh : (n / d : ℚ) ≤ m + 1 / 2)
    (hties : m % 2 = 0 ∨ (m : ℚ) - 1 / 2 < n / d ∧ (n / d : ℚ) < m + 1 / 2) : roundDiv n d = m := by
  have hd' : (0 : ℚ) < d := by exact_mod_cast hd
  apply roundDiv_eq hd
  · rw [le_div_iff₀ hd'] at hlow
    have h : (2 * m * d : ℚ) ≤ 2 * n + d := by linarith
    exact_mod_cast h
  · rw [div_le_iff₀ hd'] at hhigh
    have h : (2 * n : ℚ) ≤ (2 * m + 1) * d := by linarith
    exact_mod_cast h
  · refine hties.imp_right fun ⟨hlow', hhigh'⟩ => ⟨?_, ?_⟩
    · rw [lt_div_iff₀ hd'] at hlow'
      have h : (2 * m * d : ℚ) < 2 * n + d := by linarith
      exact_mod_cast h
    · rw [div_lt_iff₀ hd'] at hhigh'
      have h : (2 * n : ℚ) < (2 * m + 1) * d := by linarith
      exact_mod_cast h

variable {x : Binary64}

theorem ofMagnitude_magnitudeBits (x : Binary64) :
    ofMagnitude x.isNegative x.magnitudeBits = x := by
  have hb : x.bits.toNat < 2 ^ 64 := x.bits.toNat_lt
  have hsum : (if x.isNegative then x.magnitudeBits + 0x8000000000000000 else x.magnitudeBits) =
      x.bits.toNat := by
    simp only [isNegative, magnitudeBits, decide_eq_true_eq]
    split <;> omega
  rw [ofMagnitude, hsum, UInt64.ofNat_toNat]

theorem significand_lt (x : Binary64) : x.significand < 2 ^ 53 := by
  simp only [significand]
  have := Nat.mod_lt x.magnitudeBits (show 0 < 2 ^ 52 by decide)
  split <;> omega

theorem le_significand (h : 0 < x.field) : 2 ^ 52 ≤ x.significand := by
  simp only [significand, if_neg h.ne']
  omega

theorem le_exponent (x : Binary64) : -1074 ≤ x.exponent := by
  simp only [exponent]
  omega

theorem exponent_of_field_le (h : x.field ≤ 1) : x.exponent = -1074 := by
  simp only [exponent]
  omega

/-- The bits of a magnitude count the significands below it. -/
theorem magnitudeBits_eq (x : Binary64) :
    (x.exponent + 1074).toNat * 2 ^ 52 + x.significand = x.magnitudeBits := by
  have hdiv := Nat.div_add_mod x.magnitudeBits (2 ^ 52)
  by_cases h : x.field = 0
  · simp only [exponent, significand, if_pos h]
    rw [field] at h ⊢
    omega
  · simp only [exponent, significand, if_neg h]
    rw [field] at h ⊢
    omega

/-- A quarter of a unit in the last place. -/
def quarter (x : Binary64) : ℚ := 2 ^ (x.exponent - 2)

/-- The number lies in the interval that rounds to `x`. -/
def IsNear (x : Binary64) (v : ℚ) : Prop :=
  x.quarters.1 * x.quarter ≤ v ∧ v ≤ x.quarters.2.2 * x.quarter ∧
    (x.significand % 2 = 0 ∨ x.quarters.1 * x.quarter < v ∧ v < x.quarters.2.2 * x.quarter)

theorem quarter_pos (x : Binary64) : 0 < x.quarter := by
  rw [quarter]
  positivity

theorem zpow_exponent (x : Binary64) : (2 : ℚ) ^ x.exponent = 4 * x.quarter := by
  rw [quarter, zpow_sub₀ two_ne_zero]
  norm_num
  ring

theorem quarters_high (x : Binary64) : (x.quarters.2.2 : ℚ) = 4 * x.significand + 2 := by
  simp only [quarters]
  push_cast
  ring

theorem quarters_low_pow (hm : x.significand = 2 ^ 52) (hf : 1 < x.field) :
    (x.quarters.1 : ℚ) = 4 * x.significand - 1 := by
  have hlow : x.quarters.1 = 4 * x.significand - 1 := by
    simp only [quarters, if_pos (show x.significand = 0x10000000000000 ∧ 1 < x.field from ⟨hm, hf⟩)]
  rw [hlow, Nat.cast_sub (by omega)]
  push_cast
  ring

/-- The interval reaches half a unit down, but only a quarter below a power of two. -/
theorem quarters_low (hpos : 0 < x.significand) :
    (x.quarters.1 : ℚ) = 4 * x.significand - 2 ∨
      x.significand = 2 ^ 52 ∧ 1 < x.field ∧ (x.quarters.1 : ℚ) = 4 * x.significand - 1 := by
  by_cases h : x.significand = 2 ^ 52 ∧ 1 < x.field
  · exact Or.inr ⟨h.1, h.2, quarters_low_pow h.1 h.2⟩
  · left
    have hlow : x.quarters.1 = 4 * x.significand - 2 := by
      simp only [quarters, if_neg (show ¬ (x.significand = 0x10000000000000 ∧ 1 < x.field) from h)]
    rw [hlow, Nat.cast_sub (by omega)]
    push_cast
    ring

theorem IsNear.pos {v : ℚ} (hpos : 0 < x.significand) (h : x.IsNear v) : 0 < v := by
  have hq := x.quarter_pos
  have hm : (1 : ℚ) ≤ x.significand := by exact_mod_cast hpos
  have hlow : (1 : ℚ) ≤ x.quarters.1 := by
    rcases quarters_low hpos with h | ⟨-, -, h⟩ <;> linarith
  nlinarith [h.1]

theorem IsNear.bounds {v : ℚ} (hpos : 0 < x.significand) (h : x.IsNear v)
    (hstep : x.significand = 2 ^ 52 → 1 < x.field → (2 : ℚ) ^ 52 ≤ v / 2 ^ x.exponent) :
    (x.significand : ℚ) - 1 / 2 ≤ v / 2 ^ x.exponent ∧ v / 2 ^ x.exponent ≤ x.significand + 1 / 2 ∧
      (x.significand % 2 = 0 ∨ (x.significand : ℚ) - 1 / 2 < v / 2 ^ x.exponent ∧
        v / 2 ^ x.exponent < x.significand + 1 / 2) := by
  obtain ⟨hlow, hhigh, hties⟩ := h
  have hq := x.quarter_pos
  rw [quarters_high] at hhigh hties
  have hup : v / 2 ^ x.exponent ≤ x.significand + 1 / 2 := by
    rw [zpow_exponent, div_le_iff₀ (by positivity)]
    linarith
  rcases quarters_low hpos with hl | ⟨hm, hf, -⟩
  · rw [hl] at hlow hties
    rw [zpow_exponent, div_le_iff₀ (by positivity), le_div_iff₀ (by positivity),
      lt_div_iff₀ (by positivity), div_lt_iff₀ (by positivity)]
    refine ⟨by linarith, by linarith, hties.imp_right fun ⟨h1, h2⟩ => ⟨by linarith, by linarith⟩⟩
  · refine ⟨(sub_le_self _ (by norm_num)).trans ?_, hup, Or.inl (by rw [hm]; decide)⟩
    rw [hm]
    exact_mod_cast hstep hm hf

/-- Below a power of two the numbers lie twice as close. -/
theorem IsNear.bounds_below {v : ℚ} (h : x.IsNear v) (hm : x.significand = 2 ^ 52)
    (hf : 1 < x.field) (hstep : v / 2 ^ x.exponent < 2 ^ 52) :
    (2 : ℚ) ^ 53 - 1 / 2 ≤ v / 2 ^ (x.exponent - 1) ∧ v / 2 ^ (x.exponent - 1) < 2 ^ 53 := by
  have hq := x.quarter_pos
  have hlow := h.1
  have hhalf : (2 : ℚ) ^ (x.exponent - 1) = 2 * x.quarter := by
    rw [quarter, show x.exponent - 1 = 1 + (x.exponent - 2) by ring, zpow_add₀ two_ne_zero,
      zpow_one]
  rw [hhalf, le_div_iff₀ (by positivity), div_lt_iff₀ (by positivity)]
  rw [zpow_exponent, div_lt_iff₀ (by positivity)] at hstep
  rw [quarters_low_pow hm hf, hm] at hlow
  push_cast at hlow
  constructor <;> linarith

/-- The bits that a rounded quotient has before it is cut at infinity. -/
def roundedBits (num den : Nat) : Nat :=
  let e := max (ratioLog num den - 52) (-1074)
  (e + 1074).toNat * 2 ^ 52 + roundDiv (scaled num den e).1 (scaled num den e).2

theorem ofRatio_eq_min {num : Nat} (hnum : num ≠ 0) (negative : Bool) (den : Nat) :
    ofRatio negative num den = ofMagnitude negative (min (roundedBits num den) infinityBits) := by
  rw [ofRatio, if_neg hnum]
  rfl

theorem roundedBits_eq {num den m : Nat} {e : ℤ} (he : max (ratioLog num den - 52) (-1074) = e)
    (hm : roundDiv (scaled num den e).1 (scaled num den e).2 = m) :
    roundedBits num den = (e + 1074).toNat * 2 ^ 52 + m := by
  subst he hm
  rfl

section Near

variable {num den : Nat} (hnum : 0 < num) (hden : 0 < den) (h : x.IsNear (num / den))

include hnum hden h

/-- The number comes from below a power of two and is counted in halves of the unit. -/
theorem roundedBits_of_below (hm : x.significand = 2 ^ 52) (hf : 1 < x.field)
    (hlt : (num / den / 2 ^ x.exponent : ℚ) < 2 ^ 52) : roundedBits num den = x.magnitudeBits := by
  obtain ⟨hlow, hhigh⟩ := h.bounds_below hm hf hlt
  have hlog : ratioLog num den = x.exponent + 51 := by
    apply ratioLog_eq hnum hden
    · rw [show x.exponent + 51 = 52 + (x.exponent - 1) by ring, zpow_add₀ two_ne_zero,
        ← le_div_iff₀ (by positivity)]
      exact le_trans (by norm_num) hlow
    · rw [show x.exponent + 51 + 1 = 53 + (x.exponent - 1) by ring, zpow_add₀ two_ne_zero,
        ← div_lt_iff₀ (by positivity)]
      exact_mod_cast hhigh
  have hexp : -1073 ≤ x.exponent := by
    simp only [exponent]
    omega
  have hmax : max (ratioLog num den - 52) (-1074) = x.exponent - 1 := by omega
  have hround : roundDiv (scaled num den (x.exponent - 1)).1 (scaled num den (x.exponent - 1)).2 =
      2 ^ 53 := by
    apply roundDiv_eq_of_near (scaled_den_pos hden _)
    · rw [scaled_ratio]
      exact_mod_cast hlow
    · rw [scaled_ratio]
      push_cast
      linarith
    · exact Or.inl (by decide)
  -- The significand carries into the exponent.
  have hnext : (x.exponent + 1074).toNat = (x.exponent - 1 + 1074).toNat + 1 := by omega
  rw [roundedBits_eq hmax hround, ← x.magnitudeBits_eq, hm, hnext]
  ring

variable (hpos : 0 < x.significand)
  (hstep : x.significand = 2 ^ 52 → 1 < x.field → (2 : ℚ) ^ 52 ≤ num / den / 2 ^ x.exponent)

include hpos hstep

theorem max_ratioLog_eq_exponent : max (ratioLog num den - 52) (-1074) = x.exponent := by
  obtain ⟨hlow, hhigh, -⟩ := h.bounds hpos hstep
  have hexp := x.le_exponent
  have hlt : (num / den : ℚ) < 2 ^ (x.exponent + 53) := by
    rw [add_comm, zpow_add₀ two_ne_zero, ← div_lt_iff₀ (by positivity)]
    have hs : (x.significand : ℚ) + 1 ≤ 2 ^ 53 := by exact_mod_cast x.significand_lt
    have hquot : (num / den / 2 ^ x.exponent : ℚ) < 2 ^ 53 := by linarith
    exact_mod_cast hquot
  have hup := ratioLog_lt hnum hden hlt
  by_cases hf : x.field ≤ 1
  · -- Among the least numbers the exponent does not follow the logarithm down.
    have hleast := exponent_of_field_le hf
    omega
  · have hge : (2 : ℚ) ^ 52 ≤ num / den / 2 ^ x.exponent := by
      by_cases hm : x.significand = 2 ^ 52
      · exact hstep hm (by omega)
      · have hs : (2 : ℚ) ^ 52 + 1 ≤ x.significand := by
          have hnormal := le_significand (x := x) (by omega)
          exact_mod_cast (show 2 ^ 52 + 1 ≤ x.significand by omega)
        linarith
    have hlog : ratioLog num den = x.exponent + 52 := by
      apply ratioLog_eq hnum hden
      · rw [add_comm, zpow_add₀ two_ne_zero, ← le_div_iff₀ (by positivity)]
        exact_mod_cast hge
      · rwa [add_assoc]
    omega

theorem roundedBits_of_bounds : roundedBits num den = x.magnitudeBits := by
  obtain ⟨hlow, hhigh, hties⟩ := h.bounds hpos hstep
  have hround : roundDiv (scaled num den x.exponent).1 (scaled num den x.exponent).2 =
      x.significand := by
    apply roundDiv_eq_of_near (scaled_den_pos hden _) <;> rw [scaled_ratio]
    · exact hlow
    · exact hhigh
    · exact hties
  rw [roundedBits_eq (max_ratioLog_eq_exponent hnum hden h hpos hstep) hround, x.magnitudeBits_eq]

end Near

theorem ofRatio_eq_of_near {num den : Nat} (hfin : x.isFinite) (hpos : 0 < x.significand)
    (hden : 0 < den) (h : x.IsNear (num / den)) : ofRatio x.isNegative num den = x := by
  have hd : (0 : ℚ) < den := by exact_mod_cast hden
  have hnum : 0 < num := by
    have hn : (0 : ℚ) < num := by
      have hmul := mul_pos (h.pos hpos) hd
      rwa [div_mul_cancel₀ _ hd.ne'] at hmul
    exact_mod_cast hn
  have hfin' : x.magnitudeBits < infinityBits := by simpa [isFinite] using hfin
  have hbits : roundedBits num den = x.magnitudeBits := by
    by_cases hstep : x.significand = 2 ^ 52 ∧ 1 < x.field ∧
      (num / den / 2 ^ x.exponent : ℚ) < 2 ^ 52
    · obtain ⟨hm, hf, hlt⟩ := hstep
      exact roundedBits_of_below hnum hden h hm hf hlt
    · exact roundedBits_of_bounds hnum hden h hpos fun hm hf => not_lt.mp fun hlt =>
        hstep ⟨hm, hf, hlt⟩
  rw [ofRatio_eq_min hnum.ne', hbits, min_eq_left hfin'.le, ofMagnitude_magnitudeBits]

end Binary64

end NoiseTimeline
