import NoiseTimeline.Proofs.Number.Digits
import NoiseTimeline.Proofs.Number.Shortest

/-! Printed floating-point numbers read back. The printed form of a number
other than NaN is read as that number, bit for bit. -/

namespace NoiseTimeline

theorem readExponent?_nil : readExponent? [] = some 0 := rfl

theorem readUnsigned?_whole {ds : List Char} (hds : ∀ c ∈ ds, isDigit c = true) (hne : ds ≠ [])
    (negative : Bool) :
    readUnsigned? negative ds = some (.ofDecimal negative (digitsValue ds) 0) := by
  have ht := takeWhile_isDigit_append (s := []) hds (by simp)
  have hd := dropWhile_isDigit_append (s := []) hds (by simp)
  rw [List.append_nil] at ht hd
  simp [readUnsigned?, ht, hd, hne, readExponent?_nil]

theorem readUnsigned?_point {ds es : List Char} (hds : ∀ c ∈ ds, isDigit c = true)
    (hes : ∀ c ∈ es, isDigit c = true) (hne : ds ≠ []) (negative : Bool) :
    readUnsigned? negative (ds ++ '.' :: es) =
      some (.ofDecimal negative (digitsValue (ds ++ es)) (-es.length)) := by
  have hpoint : ∀ c ∈ ('.' :: es).head?, isDigit c = false := by
    intro c hc
    obtain rfl : c = '.' := by simpa using hc.symm
    decide
  have ht := takeWhile_isDigit_append (s := []) hes (by simp)
  have hd := dropWhile_isDigit_append (s := []) hes (by simp)
  rw [List.append_nil] at ht hd
  simp [readUnsigned?, takeWhile_isDigit_append hds hpoint, dropWhile_isDigit_append hds hpoint, ht,
    hd, hne, readExponent?_nil]

namespace Decimal

theorem isDigit_of_mem_zeros {k : Nat} {c : Char} (h : c ∈ List.replicate k '0') :
    isDigit c = true := by
  rw [List.eq_of_mem_replicate h]
  decide

theorem readUnsigned?_positional (d : Decimal) (negative : Bool) :
    ∃ n e, readUnsigned? negative d.positional = some (.ofDecimal negative n e) ∧
      (⟨n, e⟩ : Decimal).value = d.value := by
  have hdigits : ∀ c ∈ digitTexts d.digits, isDigit c = true := fun c => isDigit_of_mem_digitTexts
  have hvalue := digitsFrom_digitTexts d.digits
  unfold positional
  dsimp only
  split
  · rename_i hexp
    refine ⟨_, _, readUnsigned?_whole ?_ (by simp [digitTexts_ne_nil]) negative, ?_⟩
    · intro c hc
      rcases List.mem_append.mp hc with hc | hc
      · exact hdigits c hc
      · exact isDigit_of_mem_zeros hc
    · rw [digitsValue, digitsFrom_append, hvalue, digitsFrom_replicate_zero, value, value]
      push_cast
      rw [← zpow_natCast, Int.toNat_of_nonneg hexp]
      simp
  · rename_i hexp
    split
    · rename_i hplaces
      have htake : ∀ k, ∀ c ∈ (digitTexts d.digits).take k, isDigit c = true :=
        fun k c hc => hdigits c (List.mem_of_mem_take hc)
      have hdrop : ∀ k, ∀ c ∈ (digitTexts d.digits).drop k, isDigit c = true :=
        fun k c hc => hdigits c (List.mem_of_mem_drop hc)
      refine ⟨_, _, readUnsigned?_point (htake _) (hdrop _) ?_ negative, ?_⟩
      · rw [Ne, List.take_eq_nil_iff, not_or]
        exact ⟨by omega, digitTexts_ne_nil _⟩
      · rw [List.take_append_drop, digitsValue, hvalue, List.length_drop]
        congr 2
        omega
    · rename_i hplaces
      refine ⟨_, _,
        readUnsigned?_point (show ∀ c ∈ ['0'], isDigit c = true by simp [isDigit_eq]) ?_ (by decide)
          negative, ?_⟩
      · intro c hc
        rcases List.mem_append.mp hc with hc | hc
        · exact isDigit_of_mem_zeros hc
        · exact hdigits c hc
      · have hlead : digitsFrom 0 ['0'] = 0 := rfl
        rw [digitsValue, digitsFrom_append, hlead, digitsFrom_append, digitsFrom_replicate_zero,
          Nat.zero_mul, hvalue, List.length_append, List.length_replicate]
        congr 2
        omega

theorem mem_positional {d : Decimal} {c : Char} (h : c ∈ d.positional) :
    isDigit c = true ∨ c = '.' := by
  have hdigits : c ∈ digitTexts d.digits → isDigit c = true ∨ c = '.' :=
    fun hc => Or.inl (isDigit_of_mem_digitTexts hc)
  have hzeros : ∀ k, c ∈ List.replicate k '0' → isDigit c = true ∨ c = '.' :=
    fun k hc => Or.inl (isDigit_of_mem_zeros hc)
  unfold positional at h
  dsimp only at h
  split_ifs at h
  · exact (List.mem_append.mp h).elim hdigits (hzeros _)
  · rcases List.mem_append.mp h with h | h
    · exact hdigits (List.mem_of_mem_take h)
    · exact (List.mem_cons.mp h).elim Or.inr fun h => hdigits (List.mem_of_mem_drop h)
  · rcases List.mem_cons.mp h with h | h
    · exact Or.inl (by rw [h]; decide)
    · exact (List.mem_cons.mp h).elim Or.inr fun h => (List.mem_append.mp h).elim (hzeros _) hdigits

theorem positional_ne_nil (d : Decimal) : d.positional ≠ [] := by
  unfold positional
  dsimp only
  split_ifs
  · simp [digitTexts_ne_nil]
  · simp
  · simp

end Decimal

namespace Binary64

variable {x : Binary64}

theorem IsNear.magnitude_le {v : ℚ} (hpos : 0 < x.significand) (h : x.IsNear v) :
    x.magnitude ≤ 2 * v ∧ v ≤ 2 * x.magnitude := by
  have hq := x.quarter_pos
  have hm : (1 : ℚ) ≤ x.significand := by exact_mod_cast hpos
  obtain ⟨hlow, hhigh, -⟩ := h
  rw [quarters_high] at hhigh
  rw [magnitude_eq_quarters]
  have hlow' : (4 * x.significand - 2) * x.quarter ≤ v := by
    refine le_trans ?_ hlow
    apply mul_le_mul_of_nonneg_right ?_ hq.le
    rcases quarters_low hpos with hl | ⟨-, -, hl⟩ <;> linarith
  constructor <;> nlinarith

theorem two_zpow_le_ten_zpow (n : Nat) : (2 : ℚ) ^ (3 * n : ℤ) ≤ 10 ^ (n : ℤ) := by
  rw [zpow_mul, zpow_natCast, zpow_natCast]
  exact pow_le_pow_left₀ (by norm_num) (by norm_num) n

theorem lt_ten_pow_of_log2 (n : Nat) : n < 10 ^ (n.log2 / 3 + 1) := by
  calc n < 2 ^ (n.log2 + 1) := Nat.lt_log2_self
    _ ≤ 2 ^ (3 * (n.log2 / 3 + 1)) := Nat.pow_le_pow_right (by decide) (by omega)
    _ = 8 ^ (n.log2 / 3 + 1) := by rw [Nat.pow_mul]
    _ ≤ 10 ^ (n.log2 / 3 + 1) := Nat.pow_le_pow_left (by decide) _

theorem ten_zpow_le_value {d : Decimal} (hdigits : d.digits ≠ 0) {k : ℤ} (hk : k ≤ d.exponent) :
    (10 : ℚ) ^ k ≤ d.value := by
  have hone : (1 : ℚ) ≤ d.digits := by exact_mod_cast Nat.one_le_iff_ne_zero.mpr hdigits
  calc (10 : ℚ) ^ k ≤ 10 ^ d.exponent := zpow_le_zpow_right₀ (by norm_num) hk
    _ ≤ d.digits * 10 ^ d.exponent := le_mul_of_one_le_left (by positivity) hone

theorem value_le_ten_zpow {d : Decimal} {k : ℤ} (hk : d.exponent + (d.digits.log2 / 3 : Nat) < k) :
    d.value ≤ (10 : ℚ) ^ k := by
  have hdigits : (d.digits : ℚ) ≤ 10 ^ ((d.digits.log2 / 3 + 1 : Nat) : ℤ) := by
    exact_mod_cast (lt_ten_pow_of_log2 d.digits).le
  calc (d.digits : ℚ) * 10 ^ d.exponent
      ≤ 10 ^ ((d.digits.log2 / 3 + 1 : Nat) : ℤ) * 10 ^ d.exponent := by gcongr
    _ = 10 ^ (((d.digits.log2 / 3 + 1 : Nat) : ℤ) + d.exponent) := by rw [zpow_add₀ (by norm_num)]
    _ ≤ 10 ^ k := zpow_le_zpow_right₀ (by norm_num) (by omega)

/-- The shortcut for great exponents lies beyond twice the finite numbers. -/
theorem two_mul_le_ten_zpow : (2 : ℚ) * 2 ^ (1024 : ℤ) ≤ 10 ^ (400 : ℤ) := by
  calc (2 : ℚ) * 2 ^ (1024 : ℤ) = 2 ^ (1 + 1024 : ℤ) := by rw [zpow_add₀ two_ne_zero, zpow_one]
    _ ≤ 2 ^ (3 * (400 : Nat) : ℤ) := zpow_le_zpow_right₀ one_le_two (by decide)
    _ ≤ 10 ^ (400 : ℤ) := two_zpow_le_ten_zpow 400

/-- The shortcut for small exponents lies below half the least number. -/
theorem two_mul_ten_zpow_lt : (2 : ℚ) * 10 ^ (-400 : ℤ) < 2 ^ (-1074 : ℤ) := by
  have hpow := two_zpow_le_ten_zpow 400
  calc (2 : ℚ) * 10 ^ (-400 : ℤ) = 2 * (10 ^ ((400 : Nat) : ℤ))⁻¹ := by rw [← zpow_neg]; rfl
    _ ≤ 2 * (2 ^ (3 * (400 : Nat) : ℤ))⁻¹ := by gcongr
    _ = 2 ^ (1 + -(3 * (400 : Nat)) : ℤ) := by rw [zpow_add₀ two_ne_zero, zpow_neg, zpow_one]
    _ < 2 ^ (-1074 : ℤ) := zpow_lt_zpow_right₀ one_lt_two (by decide)

theorem ofDecimal_eq_of_near (hfin : x.isFinite) (hpos : 0 < x.significand) {d : Decimal}
    (h : x.IsNear d.value) :
    ofDecimal x.isNegative d.digits d.exponent = x := by
  obtain ⟨hmin, hmax⟩ := magnitude_bounds hfin hpos
  obtain ⟨hle, hge⟩ := h.magnitude_le hpos
  have hdigits : d.digits ≠ 0 := by
    intro h0
    have hv := h.pos hpos
    rw [Decimal.value, h0] at hv
    simp at hv
  have hupper : ¬ 400 < d.exponent := by
    intro hlt
    have hgreat := (ten_zpow_le_value hdigits hlt.le).trans hge
    exact absurd (hgreat.trans_lt (mul_lt_mul_of_pos_left hmax two_pos))
      (not_lt.mpr two_mul_le_ten_zpow)
  have hlower : ¬ d.exponent + (d.digits.log2 / 3 : Nat) < -400 := by
    intro hlt
    have hsmall := mul_le_mul_of_nonneg_left (value_le_ten_zpow hlt) (two_pos (α := ℚ)).le
    exact absurd (hmin.trans (hle.trans hsmall)) (not_le.mpr two_mul_ten_zpow_lt)
  rw [ofDecimal, if_neg hdigits, if_neg hupper, if_neg hlower]
  simp only [Nat.pow_eq]
  apply ofRatio_eq_of_near hfin hpos (by positivity)
  rw [Decimal.value, zpow_eq_toNat_div 10 d.exponent] at h
  push_cast
  rwa [mul_div_assoc]

theorem splitSign_signText (x : Binary64) {s : List Char}
    (hs : s.head? ≠ some '-' ∧ s.head? ≠ some '+') :
    splitSign (x.signText ++ s) = (x.isNegative, s) := by
  rw [signText]
  split
  · rename_i hneg
    rw [hneg]
    rfl
  · rename_i hneg
    rw [Bool.not_eq_true] at hneg
    rw [hneg, List.nil_append, splitSign.eq_def]
    split
    · simp at hs
    · simp at hs
    · rfl

theorem magnitudeBits_of_significand_eq_zero (h : x.significand = 0) : x.magnitudeBits = 0 := by
  have hbits := x.magnitudeBits_eq
  by_cases hf : x.field = 0
  · rw [exponent_of_field_le (by omega), h] at hbits
    simpa using hbits.symm
  · have := le_significand (x := x) (by omega)
    omega

def unsignedText (x : Binary64) : List Char :=
  if x.isInfinite then ['i', 'n', 'f']
  else if x.significand = 0 then ['0']
  else (x.shortest .up).positional

theorem text_eq (hnan : x.isNaN = false) : x.text = x.signText ++ x.unsignedText := by
  rw [text, hnan]
  rfl

theorem mem_unsignedText {c : Char} (h : c ∈ x.unsignedText) :
    isDigit c = true ∨ c = '.' ∨ c ∈ ['i', 'n', 'f'] := by
  unfold unsignedText at h
  split_ifs at h
  · exact Or.inr (Or.inr h)
  · exact Or.inl (by rw [List.mem_singleton.mp h]; decide)
  · exact (Decimal.mem_positional h).imp_right Or.inl

theorem unsignedText_ne_nil (x : Binary64) : x.unsignedText ≠ [] := by
  unfold unsignedText
  split_ifs
  · simp
  · simp
  · exact Decimal.positional_ne_nil _

theorem splitSign_text (hnan : x.isNaN = false) :
    splitSign x.text = (x.isNegative, x.unsignedText) := by
  rw [text_eq hnan]
  apply splitSign_signText
  constructor <;> intro h <;> have hmem :=
    mem_unsignedText (List.mem_of_head? h) <;> revert hmem <;> decide

theorem text_ne_nil (x : Binary64) : x.text ≠ [] := by
  cases hnan : x.isNaN with
  | true => simp [text, hnan]
  | false => simp [text_eq hnan, unsignedText_ne_nil]

theorem mem_text {c : Char} (h : c ∈ x.text) :
    isDigit c = true ∨ c ∈ ['-', '.', 'i', 'n', 'f', 'N', 'a'] := by
  cases hnan : x.isNaN with
  | true =>
    rw [text, hnan] at h
    simp only [↓reduceIte, List.mem_cons, List.not_mem_nil] at h
    right
    rcases h with rfl | rfl | rfl | h
    · decide
    · decide
    · decide
    · exact h.elim
  | false =>
    rw [text_eq hnan, signText] at h
    rcases List.mem_append.mp h with h | h
    · right
      split at h
      · rw [List.mem_singleton.mp h]
        decide
      · cases h
    · rcases mem_unsignedText h with h | rfl | h
      · exact Or.inl h
      · exact Or.inr (by decide)
      · right
        simp only [List.mem_cons, List.not_mem_nil] at h ⊢
        tauto

theorem readReal_of_unsigned {s r : List Char} {negative : Bool} {y : Binary64} (hs : s ≠ [])
    (hsplit : splitSign s = (negative, r)) (hread : readUnsigned? negative r = some y) :
    readReal s = .ok y := by
  simp [readReal, hs, hsplit, hread]

theorem readReal_text (hnan : x.isNaN = false) : readReal x.text = .ok x := by
  have hsplit := splitSign_text hnan
  have hne := x.text_ne_nil
  have hx := x.ofMagnitude_magnitudeBits
  by_cases hinf : x.isInfinite = true
  · have hbits : x.magnitudeBits = infinityBits := by simpa [isInfinite] using hinf
    rw [unsignedText, if_pos hinf] at hsplit
    have hword : ∀ b, readUnsigned? b ['i', 'n', 'f'] = none := by decide
    have hlower : String.ofList (['i', 'n', 'f'].map lowerAscii) = "inf" := by decide
    have hvalue : infinity x.isNegative = x := by rwa [hbits] at hx
    rw [readReal, if_neg (by simpa using hne), hsplit]
    simp only [hword, hlower, hvalue]
    rfl
  · by_cases hzero : x.significand = 0
    · rw [unsignedText, if_neg hinf, if_pos hzero] at hsplit
      apply readReal_of_unsigned hne hsplit
      rw [readUnsigned?_whole (by simp [isDigit_eq]) (by decide)]
      rw [magnitudeBits_of_significand_eq_zero hzero] at hx
      exact congrArg some hx
    · rw [unsignedText, if_neg hinf, if_neg hzero] at hsplit
      apply readReal_of_unsigned hne hsplit
      have hpos : 0 < x.significand := Nat.pos_of_ne_zero hzero
      have hfin : x.isFinite = true := by
        simp only [isFinite, isInfinite, isNaN, decide_eq_true_eq, beq_iff_eq,
          decide_eq_false_iff_not] at *
        omega
      obtain ⟨n, e, hread, hvalue⟩ := (x.shortest .up).readUnsigned?_positional x.isNegative
      rw [hread]
      have hnear := shortest_isNear .up hfin hpos
      rw [← hvalue] at hnear
      exact congrArg some (ofDecimal_eq_of_near hfin hpos hnear)

end Binary64

end NoiseTimeline
