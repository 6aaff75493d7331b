import NoiseTimeline.Proofs.Number.Rounding

/-! The search for the fewest digits. The decimal it finds lies in the interval
that rounds to the number, since a grid of 17 digits always has a point there. -/

namespace NoiseTimeline

theorem scale_le_iff (a d : Nat) (e g : ℤ) :
    a * 2 ^ e.toNat * 10 ^ (-g).toNat ≤ d * (2 ^ (-e).toNat * 10 ^ g.toNat) ↔
    (a : ℚ) * 2 ^ e ≤ d * 10 ^ g := by
  rw [zpow_eq_toNat_div 2 e, zpow_eq_toNat_div 10 g, ← mul_div_assoc, ← mul_div_assoc,
    div_le_div_iff₀ (by positivity) (by positivity), ← Nat.cast_le (α := ℚ)]
  push_cast
  rw [mul_assoc (d : ℚ), mul_comm (10 ^ g.toNat : ℚ)]

theorem le_scale_iff (a d : Nat) (e g : ℤ) :
    d * (2 ^ (-e).toNat * 10 ^ g.toNat) ≤ a * 2 ^ e.toNat * 10 ^ (-g).toNat ↔
    (d : ℚ) * 10 ^ g ≤ a * 2 ^ e := by
  rw [zpow_eq_toNat_div 2 e, zpow_eq_toNat_div 10 g, ← mul_div_assoc, ← mul_div_assoc,
    div_le_div_iff₀ (by positivity) (by positivity), ← Nat.cast_le (α := ℚ)]
  push_cast
  rw [mul_assoc (d : ℚ), mul_comm (10 ^ g.toNat : ℚ)]

def Decimal.value (d : Decimal) : ℚ := d.digits * 10 ^ d.exponent

theorem Decimal.dropZeros_value (fuel : Nat) (d : Decimal) :
    (d.dropZeros fuel).value = d.value := by
  induction fuel generalizing d with
  | zero => rfl
  | succ fuel ih =>
    unfold dropZeros
    split
    · rename_i h
      rw [ih, value, value]
      have hdigits : (d.digits : ℚ) = (d.digits / 10 : Nat) * 10 := by
        exact_mod_cast (Nat.div_mul_cancel (Nat.dvd_of_mod_eq_zero h.1)).symm
      rw [hdigits, zpow_add₀ (by norm_num), zpow_one]
      ring
    · rfl

namespace Binary64

variable {x : Binary64}

def magnitude (x : Binary64) : ℚ := x.significand * 2 ^ x.exponent

theorem magnitude_eq_quarters (x : Binary64) : x.magnitude = 4 * x.significand * x.quarter := by
  rw [magnitude, zpow_exponent]
  ring

theorem toRatio_ratio (x : Binary64) : ((x.toRatio.1 : ℚ) / x.toRatio.2) = x.magnitude := by
  rw [magnitude, zpow_eq_toNat_div 2 x.exponent, toRatio]
  simp only [Nat.pow_eq]
  push_cast
  rw [mul_div_assoc]

theorem toRatio_pos (hpos : 0 < x.significand) : 0 < x.toRatio.1 ∧ 0 < x.toRatio.2 := by
  simp only [toRatio, Nat.pow_eq]
  constructor <;> positivity

/-- The point of a grid at or below the number. -/
def gridFloor (x : Binary64) (g : ℤ) : Nat :=
  4 * x.significand * 2 ^ (x.exponent - 2).toNat * 10 ^ (-g).toNat /
    (2 ^ (-(x.exponent - 2)).toNat * 10 ^ g.toNat)

theorem gridFloor_bounds (x : Binary64) (g : ℤ) :
    (x.gridFloor g : ℚ) * 10 ^ g ≤ x.magnitude ∧ x.magnitude < (x.gridFloor g + 1) * 10 ^ g := by
  have hunit : 0 < 2 ^ (-(x.exponent - 2)).toNat * 10 ^ g.toNat := by positivity
  have hvalue : x.magnitude = ((4 * x.significand : Nat) : ℚ) * 2 ^ (x.exponent - 2) := by
    rw [magnitude_eq_quarters, quarter]
    push_cast
    rfl
  rw [hvalue]
  constructor
  · rw [← le_scale_iff]
    exact Nat.div_mul_le_self _ _
  · rw [← not_le]
    intro h
    have h' :=
      (le_scale_iff (4 * x.significand) (x.gridFloor g + 1) (x.exponent - 2) g).mpr
        (by exact_mod_cast h)
    rw [← Nat.le_div_iff_mul_le hunit] at h'
    exact absurd h' (Nat.not_succ_le_self _)

/-- The test that the search applies to a point of the grid. -/
def isInside (x : Binary64) (g : ℤ) (d : Nat) : Bool :=
  let scale (n : Nat) : Nat := n * 2 ^ (x.exponent - 2).toNat * 10 ^ (-g).toNat
  let p := d * (2 ^ (-(x.exponent - 2)).toNat * 10 ^ g.toNat)
  if x.significand % 2 = 0 then scale x.quarters.1 ≤ p && p ≤ scale x.quarters.2.2
  else scale x.quarters.1 < p && p < scale x.quarters.2.2

theorem isInside_iff (x : Binary64) (g : ℤ) (d : Nat) :
    x.isInside g d = true ↔ x.IsNear (d * 10 ^ g) := by
  simp only [isInside, IsNear, quarter]
  split
  · rename_i heven
    rw [Bool.and_eq_true, decide_eq_true_eq, decide_eq_true_eq, scale_le_iff, le_scale_iff]
    exact ⟨fun h => ⟨h.1, h.2, Or.inl heven⟩, fun h => ⟨h.1, h.2.1⟩⟩
  · rename_i hodd
    rw [Bool.and_eq_true, decide_eq_true_eq, decide_eq_true_eq, ← not_le, ← not_le, scale_le_iff,
      le_scale_iff, not_le, not_le]
    exact ⟨fun h => ⟨h.1.le, h.2.le, Or.inr h⟩, fun h => h.2.2.resolve_left hodd⟩

/-- The neighbour that is inside, or `both` if the two of them are. -/
def oneInside (d : Nat) (both : Option Nat) : Bool → Bool → Option Nat
  | false, false => none
  | true, false => some d
  | false, true => some (d + 1)
  | true, true => both

theorem onGrid?_spec (tie : Tie) (x : Binary64) (g : ℤ) :
    match onGrid? tie x g with
    | some d => x.isInside g d = true
    | none => x.isInside g (x.gridFloor g) = false ∧ x.isInside g (x.gridFloor g + 1) = false := by
  have hsearch : onGrid? tie x g =
      oneInside (x.gridFloor g) _ (x.isInside g (x.gridFloor g))
        (x.isInside g (x.gridFloor g + 1)) := rfl
  rw [hsearch]
  cases h1 : x.isInside g (x.gridFloor g) <;> cases h2 : x.isInside g (x.gridFloor g + 1)
  · exact ⟨rfl, rfl⟩
  · exact h2
  · exact h1
  · dsimp only
    split_ifs
    · exact h1
    · exact h2
    · cases tie with
      | up => exact h2
      | toEven =>
        change x.isInside g (x.gridFloor g + x.gridFloor g % 2) = true
        rcases Nat.mod_two_eq_zero_or_one (x.gridFloor g) with hp | hp <;> rw [hp]
        · exact h1
        · exact h2

theorem near_of_onGrid? {tie : Tie} {g : ℤ} {d : Nat} (h : onGrid? tie x g = some d) :
    x.IsNear (d * 10 ^ g) := by
  have hspec := onGrid?_spec tie x g
  rw [h] at hspec
  exact (isInside_iff x g d).mp hspec

theorem onGrid?_isSome {tie : Tie} {g : ℤ}
    (h : x.IsNear (x.gridFloor g * 10 ^ g) ∨ x.IsNear ((x.gridFloor g + 1 : Nat) * 10 ^ g)) :
    (onGrid? tie x g).isSome = true := by
  rw [← isInside_iff, ← isInside_iff] at h
  have hspec := onGrid?_spec tie x g
  cases hg : onGrid? tie x g with
  | some d => rfl
  | none =>
    rw [hg] at hspec
    rcases h with h | h
    · exact absurd h (by rw [hspec.1]; decide)
    · exact absurd h (by rw [hspec.2]; decide)

/-- On a grid of 17 digits one of the two neighbours rounds to the number. -/
theorem neighbour_isNear (hpos : 0 < x.significand) {g : ℤ}
    (hg : (10 : ℚ) ^ (g + 16) ≤ x.magnitude) :
    x.IsNear (x.gridFloor g * 10 ^ g) ∨ x.IsNear ((x.gridFloor g + 1 : Nat) * 10 ^ g) := by
  obtain ⟨hfloor, hceil⟩ := x.gridFloor_bounds g
  have hq := x.quarter_pos
  have hm : (x.significand : ℚ) < 2 ^ 53 := by exact_mod_cast x.significand_lt
  rw [magnitude_eq_quarters] at hfloor hceil hg
  rw [zpow_add₀ (by norm_num)] at hg
  norm_num at hg
  have hgap : 2 * (4 * x.significand * x.quarter - x.quarters.1 * x.quarter) > 10 ^ g ∧
      x.quarters.1 * x.quarter < 4 * x.significand * x.quarter := by
    rcases quarters_low hpos with hl | ⟨hpow, -, hl⟩
    · rw [hl]
      constructor <;> nlinarith
    · rw [hpow] at hg
      rw [hl, hpow]
      push_cast at hg ⊢
      constructor <;> linarith
  have hup : 2 * (x.quarters.2.2 * x.quarter - 4 * x.significand * x.quarter) > 10 ^ g := by
    rw [quarters_high]
    nlinarith
  by_cases hhalf : 2 * (4 * x.significand * x.quarter - x.gridFloor g * 10 ^ g) ≤ 10 ^ g
  · left
    have h1 : x.quarters.1 * x.quarter < x.gridFloor g * 10 ^ g := by linarith
    have h2 : x.gridFloor g * 10 ^ g < x.quarters.2.2 * x.quarter := by
      rw [quarters_high]
      linarith
    exact ⟨h1.le, h2.le, Or.inr ⟨h1, h2⟩⟩
  · right
    push_cast
    have h1 : x.quarters.1 * x.quarter < (x.gridFloor g + 1) * 10 ^ g := by linarith [hgap.2]
    have h2 : (x.gridFloor g + 1) * 10 ^ g < x.quarters.2.2 * x.quarter := by linarith
    exact ⟨h1.le, h2.le, Or.inr ⟨h1, h2⟩⟩

theorem pow_ten_le_pow_two {j m : Nat} (h : 196 * j ≤ 59 * m) : 10 ^ j ≤ 2 ^ m := by
  refine le_of_pow_le_pow_left₀ (n := 59) (by decide) (Nat.zero_le _) ?_
  calc (10 ^ j) ^ 59 = (10 ^ 59) ^ j := by rw [← pow_mul, ← pow_mul, mul_comm]
    _ ≤ (2 ^ 196) ^ j := Nat.pow_le_pow_left (by norm_num) j
    _ = 2 ^ (196 * j) := (pow_mul 2 196 j).symm
    _ ≤ 2 ^ (59 * m) := Nat.pow_le_pow_right (by decide) h
    _ = (2 ^ m) ^ 59 := by rw [← pow_mul, mul_comm]

theorem pow_two_le_pow_ten {j m : Nat} (h : 28 * m ≤ 93 * j) : 2 ^ m ≤ 10 ^ j := by
  refine le_of_pow_le_pow_left₀ (n := 93) (by decide) (Nat.zero_le _) ?_
  calc (2 ^ m) ^ 93 = (2 ^ 93) ^ m := by rw [← pow_mul, ← pow_mul, mul_comm]
    _ ≤ (10 ^ 28) ^ m := Nat.pow_le_pow_left (by norm_num) m
    _ = 10 ^ (28 * m) := (pow_mul 10 28 m).symm
    _ ≤ 10 ^ (93 * j) := Nat.pow_le_pow_right (by decide) h
    _ = (10 ^ j) ^ 93 := by rw [← pow_mul, mul_comm]

/-- One below the guess at the decade is never too much for the exponents of finite numbers. -/
theorem zpow_guess_le {e : ℤ} (hlow : -1075 ≤ e) (hhigh : e < 1025) :
    (10 : ℚ) ^ ((e * 30103).fdiv 100000 - 1) ≤ 2 ^ e := by
  obtain ⟨k, hk⟩ : ∃ k, k = (e * 30103).fdiv 100000 - 1 := ⟨_, rfl⟩
  have hk' := hk
  rw [Int.fdiv_eq_ediv_of_nonneg _ (by decide)] at hk'
  rw [← hk, zpow_eq_toNat_div 10, zpow_eq_toNat_div 2,
    div_le_div_iff₀ (by positivity) (by positivity)]
  have hten : 10 ^ k.toNat ≤ 2 ^ e.toNat := pow_ten_le_pow_two (by omega)
  have htwo : 2 ^ (-e).toNat ≤ 10 ^ (-k).toNat := pow_two_le_pow_ten (by omega)
  exact_mod_cast Nat.mul_le_mul hten htwo

theorem exponent_le (hfin : x.isFinite) : x.exponent ≤ 971 := by
  have hfin' : x.magnitudeBits < infinityBits := by simpa [isFinite] using hfin
  simp only [exponent, field, infinityBits] at *
  omega

theorem magnitude_bounds (hfin : x.isFinite) (hpos : 0 < x.significand) :
    (2 : ℚ) ^ (-1074 : ℤ) ≤ x.magnitude ∧ x.magnitude < 2 ^ (1024 : ℤ) := by
  have hm1 : (1 : ℚ) ≤ x.significand := by exact_mod_cast hpos
  have hm2 : (x.significand : ℚ) < 2 ^ (53 : ℤ) := by exact_mod_cast x.significand_lt
  have h1 : (2 : ℚ) ^ (-1074 : ℤ) ≤ 2 ^ x.exponent := zpow_le_zpow_right₀ one_le_two x.le_exponent
  have h2 : (2 : ℚ) ^ x.exponent ≤ 2 ^ (971 : ℤ) :=
    zpow_le_zpow_right₀ one_le_two (exponent_le hfin)
  constructor
  · exact h1.trans (le_mul_of_one_le_left (by positivity) hm1)
  · calc (x.significand : ℚ) * 2 ^ x.exponent ≤ x.significand * 2 ^ (971 : ℤ) := by gcongr
      _ < 2 ^ (53 : ℤ) * 2 ^ (971 : ℤ) := by gcongr
      _ = 2 ^ (1024 : ℤ) := by rw [← zpow_add₀ two_ne_zero]; rfl

theorem ratioLog_range (hfin : x.isFinite) (hpos : 0 < x.significand) :
    -1075 ≤ ratioLog x.toRatio.1 x.toRatio.2 ∧ ratioLog x.toRatio.1 x.toRatio.2 < 1025 := by
  obtain ⟨hnum, hden⟩ := toRatio_pos hpos
  obtain ⟨hlow, hhigh⟩ := ratioLog_bounds hnum hden
  obtain ⟨hmin, hmax⟩ := magnitude_bounds hfin hpos
  rw [toRatio_ratio] at hlow hhigh
  have h1 := (zpow_lt_zpow_iff_right₀ (one_lt_two (α := ℚ))).mp (hmin.trans_lt hhigh)
  have h2 := (zpow_lt_zpow_iff_right₀ (one_lt_two (α := ℚ))).mp (hlow.trans_lt hmax)
  omega

theorem zpow_decade_le (hfin : x.isFinite) (hpos : 0 < x.significand) :
    (10 : ℚ) ^ decade x.toRatio.1 x.toRatio.2 ≤ x.magnitude := by
  obtain ⟨hnum, hden⟩ := toRatio_pos hpos
  have hlog := (ratioLog_bounds hnum hden).1
  obtain ⟨hlo, hhi⟩ := ratioLog_range hfin hpos
  rw [← toRatio_ratio]
  have hd : (0 : ℚ) < x.toRatio.2 := by exact_mod_cast hden
  have hreaches : ∀ k : ℤ, x.toRatio.2 * 10 ^ k.toNat ≤ x.toRatio.1 * 10 ^ (-k).toNat →
      (10 : ℚ) ^ k ≤ x.toRatio.1 / x.toRatio.2 := by
    intro k hk
    rw [zpow_eq_toNat_div 10 k, div_le_div_iff₀ (by positivity) hd, mul_comm]
    exact_mod_cast hk
  unfold decade
  dsimp only
  split_ifs with h1 h2
  · exact hreaches _ (by simpa using h1)
  · exact hreaches _ (by simpa using h2)
  · exact (zpow_guess_le hlo hhi).trans hlog

theorem firstGrid_isNear {tie : Tie} {top : ℤ} {fuel n : Nat}
    (h : ∃ i, i < fuel ∧ (onGrid? tie x (top - (n + i : Nat))).isSome = true) :
    x.IsNear (firstGrid tie x top fuel n).value := by
  induction fuel generalizing n with
  | zero =>
    obtain ⟨i, hi, -⟩ := h
    omega
  | succ fuel ih =>
    unfold firstGrid
    cases hg : onGrid? tie x (top - n) with
    | some d => exact near_of_onGrid? hg
    | none =>
      obtain ⟨i, hi, hsome⟩ := h
      cases i with
      | zero => simp [hg] at hsome
      | succ i => exact ih ⟨i, by omega, by rwa [Nat.add_assoc, Nat.add_comm 1]⟩

theorem shortest_isNear (tie : Tie) (hfin : x.isFinite) (hpos : 0 < x.significand) :
    x.IsNear (x.shortest tie).value := by
  have hdecade := zpow_decade_le hfin hpos
  rw [shortest, Decimal.dropZeros_value]
  apply firstGrid_isNear
  refine ⟨16, by decide, onGrid?_isSome (neighbour_isNear hpos ?_)⟩
  rwa [show decade x.toRatio.1 x.toRatio.2 + 1 - (1 + 16 : Nat) + 16 =
    decade x.toRatio.1 x.toRatio.2 by
    push_cast
    ring]

end Binary64

end NoiseTimeline
