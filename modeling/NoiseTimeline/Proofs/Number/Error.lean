import NoiseTimeline.Proofs.Number.Shortest

/-! How far off a rounded number is. A quotient below a power of two is off by at most half a unit
in the last place that the power leaves, and a sum by that and the errors of its terms. -/

namespace NoiseTimeline.Binary64

theorem roundDiv_near (n : Nat) {d : Nat} (hd : 0 < d) :
    2 * n ≤ (2 * roundDiv n d + 1) * d ∧ 2 * roundDiv n d * d ≤ 2 * n + d := by
  have hdiv := Nat.div_add_mod n d
  have hmod := Nat.mod_lt n hd
  unfold roundDiv
  dsimp only
  generalize n / d = q at *
  generalize n % d = r at *
  subst hdiv
  split
  · constructor <;> nlinarith
  · split
    · rcases Nat.mod_two_eq_zero_or_one q with hq | hq <;> rw [hq] <;> constructor <;> nlinarith
    · constructor <;> nlinarith

theorem roundDiv_error (n : Nat) {d : Nat} (hd : 0 < d) : |(roundDiv n d : ℚ) - n / d| ≤ 1 / 2 := by
  obtain ⟨hlow, hhigh⟩ := roundDiv_near n hd
  have hd' : (0 : ℚ) < d := by exact_mod_cast hd
  have hlow' : (2 * n : ℚ) ≤ (2 * roundDiv n d + 1) * d := by exact_mod_cast hlow
  have hhigh' : (2 * roundDiv n d * d : ℚ) ≤ 2 * n + d := by exact_mod_cast hhigh
  rw [abs_sub_le_iff, sub_le_iff_le_add, sub_le_iff_le_add, ← sub_le_iff_le_add', le_div_iff₀ hd',
    div_le_iff₀ hd']
  constructor <;> linarith

theorem roundDiv_even (n : Nat) {d : Nat} (hd : 0 < d)
    (h : |(roundDiv n d : ℚ) - n / d| = 1 / 2) : roundDiv n d % 2 = 0 := by
  have hd' : (0 : ℚ) < d := by exact_mod_cast hd
  have htie : 2 * n = (2 * roundDiv n d + 1) * d ∨ 2 * roundDiv n d * d = 2 * n + d := by
    rcases (abs_eq (by norm_num)).mp h with h | h
    · right
      rw [sub_eq_iff_eq_add, ← sub_eq_iff_eq_add', eq_div_iff hd'.ne'] at h
      have heq : (2 * roundDiv n d * d : ℚ) = 2 * n + d := by linarith
      exact_mod_cast heq
    · left
      rw [sub_eq_iff_eq_add, ← sub_eq_iff_eq_add', eq_div_iff hd'.ne'] at h
      have heq : (2 * n : ℚ) = (2 * roundDiv n d + 1) * d := by linarith
      exact_mod_cast heq
  have hdiv := Nat.div_add_mod n d
  have hmod := Nat.mod_lt n hd
  revert htie
  unfold roundDiv
  dsimp only
  generalize n / d = q at *
  generalize n % d = r at *
  subst hdiv
  split
  · rintro (htie | htie) <;> nlinarith
  · split
    · intro _
      omega
    · rename_i hne
      rintro (htie | htie)
      · exact absurd (by linarith) hne
      · nlinarith

theorem roundDiv_bounds {n d m : Nat} (hd : 0 < d) :
    (m * d ≤ n → m ≤ roundDiv n d) ∧ (n ≤ m * d → roundDiv n d ≤ m) := by
  obtain ⟨hlow, hhigh⟩ := roundDiv_near n hd
  constructor
  · intro h
    by_contra hlt
    have hmul : (roundDiv n d + 1) * d ≤ m * d := Nat.mul_le_mul_right d (Nat.not_le.mp hlt)
    nlinarith
  · intro h
    by_contra hlt
    have hmul : (m + 1) * d ≤ roundDiv n d * d := Nat.mul_le_mul_right d (Nat.not_le.mp hlt)
    nlinarith

theorem magnitudeBits_ofMagnitude {bits : Nat} (h : bits < 2 ^ 63) :
    (ofMagnitude false bits).magnitudeBits = bits := by
  rw [ofMagnitude, magnitudeBits, if_neg Bool.false_ne_true,
    UInt64.toNat_ofNat_of_lt' (by rw [UInt64.size]; omega)]
  exact Nat.mod_eq_of_lt h

/-- The number has no sign, is finite and lies within `ε` of `v`. -/
structure IsWithin (x : Binary64) (v ε : ℚ) : Prop where
  isNegative : x.isNegative = false
  isFinite : x.isFinite = true
  error : |x.magnitude - v| ≤ ε

theorem toRatio_den_pos (x : Binary64) : 0 < x.toRatio.2 := by
  simp only [toRatio, Nat.pow_eq]
  positivity

/-- The bits of a magnitude are counted through the powers of two: a significand of `2 ^ 53` is the
least one of the next. -/
theorem magnitude_ofMagnitude {k m : Nat} (hk : k ≤ 2044) (hm : m ≤ 2 ^ 53)
    (hnormal : 2 ^ 52 ≤ m ∨ k = 0) :
    (ofMagnitude false (k * 2 ^ 52 + m)).magnitude = m * 2 ^ ((k : ℤ) - 1074) := by
  have hbits := magnitudeBits_ofMagnitude (show k * 2 ^ 52 + m < 2 ^ 63 by omega)
  generalize ofMagnitude false (k * 2 ^ 52 + m) = x at hbits
  rw [← x.magnitudeBits_eq] at hbits
  have hexponent := x.le_exponent
  have hlt := x.significand_lt
  have hnormal' : x.exponent = -1074 ∨ 2 ^ 52 ≤ x.significand := by
    by_cases hfield : x.field ≤ 1
    · exact Or.inl (exponent_of_field_le hfield)
    · exact Or.inr (le_significand (by omega))
  have hcases : x.exponent = k - 1074 ∧ x.significand = m ∨
      x.exponent = k - 1074 + 1 ∧ x.significand = 2 ^ 52 ∧ m = 2 ^ 53 := by omega
  rw [magnitude]
  rcases hcases with ⟨hexp, hsig⟩ | ⟨hexp, hsig, rfl⟩
  · rw [hexp, hsig]
  · rw [hexp, hsig, zpow_add_one₀ two_ne_zero]
    push_cast
    ring

theorem isWithin_ofMagnitude {k m : Nat} {v ε : ℚ} (hk : k ≤ 2044) (hm : m ≤ 2 ^ 53)
    (hnormal : 2 ^ 52 ≤ m ∨ k = 0) (herror : |m * 2 ^ ((k : ℤ) - 1074) - v| ≤ ε) :
    (ofMagnitude false (k * 2 ^ 52 + m)).IsWithin v ε := by
  refine ⟨?_, ?_, ?_⟩
  · rw [isNegative, ofMagnitude, if_neg Bool.false_ne_true,
      UInt64.toNat_ofNat_of_lt' (by rw [UInt64.size]; omega)]
    exact decide_eq_false (by omega)
  · rw [isFinite, magnitudeBits_ofMagnitude (by omega)]
    exact decide_eq_true (by rw [infinityBits]; omega)
  · rwa [magnitude_ofMagnitude hk hm hnormal]

/-- The rounded significand has at most 53 bits, and has them unless the number is among the
least. -/
theorem roundDiv_scaled_bounds {num den : Nat} {e : ℤ} (hnum : 0 < num) (hden : 0 < den)
    (he : max (ratioLog num den - 52) (-1074) = e) :
    roundDiv (scaled num den e).1 (scaled num den e).2 ≤ 2 ^ 53 ∧
      (e = -1074 ∨ 2 ^ 52 ≤ roundDiv (scaled num den e).1 (scaled num den e).2) := by
  obtain ⟨hge, hlt⟩ := ratioLog_bounds hnum hden
  have hquot := scaled_ratio num den e
  have hd : 0 < (scaled num den e).2 := scaled_den_pos hden e
  have hd' : (0 : ℚ) < (scaled num den e).2 := by exact_mod_cast hd
  constructor
  · have hle : (num / den : ℚ) / 2 ^ e ≤ 2 ^ 53 := by
      rw [div_le_iff₀ (by positivity), ← zpow_natCast, ← zpow_add₀ two_ne_zero]
      exact hlt.le.trans (zpow_le_zpow_right₀ one_le_two (by push_cast; omega))
    rw [← hquot, div_le_iff₀ hd'] at hle
    exact (roundDiv_bounds hd).2 (by exact_mod_cast hle)
  · by_cases hleast : e = -1074
    · exact Or.inl hleast
    · have hle : (2 : ℚ) ^ 52 ≤ (num / den : ℚ) / 2 ^ e := by
        rw [le_div_iff₀ (by positivity), ← zpow_natCast, ← zpow_add₀ two_ne_zero]
        exact le_trans (zpow_le_zpow_right₀ one_le_two (by push_cast; omega)) hge
      rw [← hquot, le_div_iff₀ hd'] at hle
      exact Or.inr ((roundDiv_bounds hd).1 (by exact_mod_cast hle))

theorem roundDiv_scaled_error (num : Nat) {den : Nat} (hden : 0 < den) (e : ℤ) :
    |(roundDiv (scaled num den e).1 (scaled num den e).2 : ℚ) * 2 ^ e - num / den| ≤
      2 ^ (e - 1) := by
  have hpow : (0 : ℚ) < 2 ^ e := by positivity
  have hd : 0 < (scaled num den e).2 := scaled_den_pos hden e
  have herror := roundDiv_error (scaled num den e).1 hd
  rw [scaled_ratio] at herror
  calc |(roundDiv (scaled num den e).1 (scaled num den e).2 : ℚ) * 2 ^ e - num / den|
      = |((roundDiv (scaled num den e).1 (scaled num den e).2 : ℚ) - num / den / 2 ^ e) *
        2 ^ e| := by
        rw [sub_mul, div_mul_cancel₀ _ hpow.ne']
    _ = |(roundDiv (scaled num den e).1 (scaled num den e).2 : ℚ) - num / den / 2 ^ e| * 2 ^ e := by
        rw [abs_mul, abs_of_pos hpow]
    _ ≤ 1 / 2 * 2 ^ e := mul_le_mul_of_nonneg_right herror hpow.le
    _ = 2 ^ (e - 1) := by
        rw [zpow_sub_one₀ two_ne_zero]
        ring

theorem isWithin_ofRatio {num den : Nat} {k : ℤ} (hden : 0 < den) (hlt : (num / den : ℚ) < 2 ^ k)
    (hlow : -1021 ≤ k) (hhigh : k ≤ 1023) :
    (ofRatio false num den).IsWithin (num / den) (2 ^ (k - 54)) := by
  rcases Nat.eq_zero_or_pos num with rfl | hnum
  · refine isWithin_ofMagnitude (k := 0) (m := 0) (by decide) (by decide) (Or.inr rfl) ?_
    simp only [Nat.cast_zero, zero_mul, zero_div, sub_zero, abs_zero]
    positivity
  have hlog := ratioLog_lt hnum hden hlt
  obtain ⟨e, he⟩ : ∃ e, max (ratioLog num den - 52) (-1074) = e := ⟨_, rfl⟩
  obtain ⟨m, hm⟩ : ∃ m, roundDiv (scaled num den e).1 (scaled num den e).2 = m := ⟨_, rfl⟩
  have hbounds := roundDiv_scaled_bounds hnum hden he
  have herror := roundDiv_scaled_error num hden e
  rw [hm] at hbounds herror
  have hfinite : roundedBits num den ≤ infinityBits := by
    rw [roundedBits_eq he hm, infinityBits]
    omega
  rw [ofRatio_eq_min hnum.ne', min_eq_left hfinite, roundedBits_eq he hm]
  refine isWithin_ofMagnitude (by omega) hbounds.1 (by omega) ?_
  rw [show ((e + 1074).toNat : ℤ) - 1074 = e by omega]
  exact herror.trans (zpow_le_zpow_right₀ one_le_two (by omega))

theorem isWithin_ofNat {n : Nat} {k : ℤ} (hlt : (n : ℚ) < 2 ^ k) (hlow : -1021 ≤ k)
    (hhigh : k ≤ 1023) :
    (ofNat n).IsWithin n (2 ^ (k - 54)) := by
  have hratio : ((n : ℚ) / (1 : Nat)) = n := by rw [Nat.cast_one, div_one]
  have h := isWithin_ofRatio one_pos (hratio ▸ hlt) hlow hhigh
  rwa [hratio] at h

theorem IsWithin.add {x y : Binary64} {v w ε δ : ℚ} {k : ℤ} (hx : x.IsWithin v ε)
    (hy : y.IsWithin w δ) (hlt : v + w + (ε + δ) < 2 ^ k) (hlow : -1021 ≤ k) (hhigh : k ≤ 1023) :
    (addMagnitudes x y).IsWithin (v + w) (ε + δ + 2 ^ (k - 54)) := by
  have hratio :
      ((x.toRatio.1 * y.toRatio.2 + y.toRatio.1 * x.toRatio.2 : Nat) /
        (x.toRatio.2 * y.toRatio.2 : Nat) : ℚ) =
      x.magnitude + y.magnitude := by
    have hxd : (x.toRatio.2 : ℚ) ≠ 0 := by exact_mod_cast x.toRatio_den_pos.ne'
    have hyd : (y.toRatio.2 : ℚ) ≠ 0 := by exact_mod_cast y.toRatio_den_pos.ne'
    rw [← toRatio_ratio x, ← toRatio_ratio y]
    push_cast
    field_simp
  have hxe := abs_le.mp hx.error
  have hye := abs_le.mp hy.error
  have hden : 0 < x.toRatio.2 * y.toRatio.2 := Nat.mul_pos x.toRatio_den_pos y.toRatio_den_pos
  have hsum := isWithin_ofRatio (k := k) hden (by rw [hratio]; linarith [hxe.2, hye.2]) hlow hhigh
  rw [hratio] at hsum
  refine ⟨hsum.isNegative, hsum.isFinite, ?_⟩
  have he := abs_le.mp hsum.error
  have hadd : addMagnitudes x y =
      ofRatio false (x.toRatio.1 * y.toRatio.2 + y.toRatio.1 * x.toRatio.2)
    (x.toRatio.2 * y.toRatio.2) := rfl
  rw [hadd, abs_le]
  constructor <;> linarith [hxe.1, hye.1, he.1, hxe.2, hye.2, he.2]

end NoiseTimeline.Binary64
