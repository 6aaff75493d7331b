import NoiseTimeline.Proofs.Number.Digits
import NoiseTimeline.Proofs.Number.Error

/-! Numbers with a fixed number of places. The digits on both sides of the point are the
quotient and the remainder of one count, and that count is the nearest to the number. -/

namespace NoiseTimeline

variable {n p : Nat}

theorem digitsFrom_eq (acc : Nat) (ds : List Char) :
    digitsFrom acc ds = acc * 10 ^ ds.length + digitsValue ds := by
  induction ds generalizing acc with
  | nil => simp [digitsFrom, digitsValue]
  | cons c ds ih =>
    have hstep : ∀ acc, digitsFrom acc (c :: ds) =
        digitsFrom (10 * acc + (digitValue? c).getD 0) ds := fun _ => rfl
    rw [digitsValue, hstep, hstep, ih, ih, List.length_cons, Nat.pow_succ]
    ring

theorem digitsValue_append (ds es : List Char) :
    digitsValue (ds ++ es) = digitsValue ds * 10 ^ es.length + digitsValue es := by
  rw [digitsValue, digitsFrom_append, digitsFrom_eq]
  rfl

theorem digitValue?_getD_lt (c : Char) : (digitValue? c).getD 0 < 10 := by
  unfold digitValue?
  split
  · rename_i h
    have h9 : c.toNat ≤ '9'.toNat := h.2
    rw [Option.getD_some]
    simp only [Char.reduceToNat] at h9 ⊢
    omega
  · decide

theorem digitsValue_lt (ds : List Char) : digitsValue ds < 10 ^ ds.length := by
  induction ds with
  | nil => decide
  | cons c ds ih =>
    have hstep : digitsValue (c :: ds) = digitsFrom ((digitValue? c).getD 0) ds := by
      rw [digitsValue, digitsFrom, List.foldl_cons, Nat.mul_zero, Nat.zero_add]
      rfl
    have hmul := Nat.mul_le_mul_right (10 ^ ds.length) (Nat.le_of_lt_succ (digitValue?_getD_lt c))
    rw [hstep, digitsFrom_eq, List.length_cons, Nat.pow_succ]
    omega

theorem digitsValue_split {ds es : List Char} (h : digitsValue (ds ++ es) = n) :
    digitsValue ds = n / 10 ^ es.length ∧ digitsValue es = n % 10 ^ es.length := by
  have hlt := digitsValue_lt es
  rw [digitsValue_append] at h
  rw [← h]
  constructor
  · rw [Nat.mul_comm, Nat.mul_add_div (Nat.pow_pos (by decide)), Nat.div_eq_of_lt hlt, Nat.add_zero]
  · rw [Nat.mul_comm, Nat.mul_add_mod, Nat.mod_eq_of_lt hlt]

theorem digitsValue_replicate_append (k : Nat) (ds : List Char) :
    digitsValue (List.replicate k '0' ++ ds) = digitsValue ds := by
  rw [digitsValue_append, digitsValue, digitsFrom_replicate_zero, Nat.zero_mul, Nat.zero_mul,
    Nat.zero_add]

theorem isDigit_replicate_append {k : Nat} {ds : List Char} (h : ∀ c ∈ ds, isDigit c = true) :
    ∀ c ∈ List.replicate k '0' ++ ds, isDigit c = true := by
  intro c hc
  rcases List.mem_append.mp hc with hc | hc
  · rw [List.eq_of_mem_replicate hc]
    decide
  · exact h c hc

namespace Decimal

theorem length_digitTexts_le {k : Nat} (hk : 0 < k) (h : n < 10 ^ k) : (digitTexts n).length ≤ k :=
  Nat.toDigits_length 10 n k hk h

/-- The two sides of the point in `count` units of the last place. -/
structure IsPlaced (count places : Nat) (whole fraction : List Char) : Prop where
  isDigit : ∀ c ∈ whole ++ fraction, isDigit c = true
  length : fraction.length = places
  length_whole : whole.length = max 1 ((digitTexts count).length - places)
  value : digitsValue whole = count / 10 ^ places
  remainder : digitsValue fraction = count % 10 ^ places

theorem withPlaces_isPlaced (hp : 0 < p) (n : Nat) :
    ∃ whole fraction, withPlaces p n = whole ++ '.' :: fraction ∧ IsPlaced n p whole fraction := by
  have hlength : (List.replicate (p + 1 - (digitTexts n).length) '0' ++ digitTexts n).length =
      max (p + 1) (digitTexts n).length := by
    rw [List.length_append, List.length_replicate]
    omega
  have hdigits := isDigit_replicate_append (k := p + 1 - (digitTexts n).length) fun c =>
    isDigit_of_mem_digitTexts (n := n)
  have hvalue := digitsValue_replicate_append (p + 1 - (digitTexts n).length) (digitTexts n)
  rw [withPlaces]
  simp only [if_neg (Nat.ne_of_gt hp)]
  generalize List.replicate (p + 1 - (digitTexts n).length) '0' ++ digitTexts n = padded at *
  have hfraction : (padded.drop (padded.length - p)).length = p := by
    rw [List.length_drop]
    omega
  have hwhole : digitsValue
      (padded.take (padded.length - p) ++ padded.drop (padded.length - p)) = n := by
    rw [List.take_append_drop, hvalue]
    exact digitsFrom_digitTexts n
  have hsplit := digitsValue_split hwhole
  rw [hfraction] at hsplit
  refine ⟨_, _, rfl, ?_, hfraction, ?_, hsplit.1, hsplit.2⟩
  · rwa [List.take_append_drop]
  · rw [List.length_take_of_le (Nat.sub_le _ _)]
    omega

end Decimal

namespace Binary64

/-- The count of units of the last of `p` places that is nearest to a number, and the even one
if two are. -/
structure RoundsTo (x : Binary64) (p count : Nat) : Prop where
  near : |(count : ℚ) - x.magnitude * 10 ^ p| ≤ 1 / 2
  even : |(count : ℚ) - x.magnitude * 10 ^ p| = 1 / 2 → count % 2 = 0

/-- What a number looks like with `p` places. -/
inductive FixedText (p : Nat) (x : Binary64) : String → Prop
  | nan (h : x.isNaN = true) : FixedText p x "NaN"
  | infinite (h : x.isInfinite = true) :
      FixedText p x ((if x.isNegative then "-" else "") ++ "inf")
  | finite {count : Nat} {whole fraction : List Char} (h : x.isFinite = true)
      (hcount : x.RoundsTo p count) (hplaced : Decimal.IsPlaced count p whole fraction) :
      FixedText p x ((if x.isNegative then "-" else "") ++ String.ofList whole ++ "." ++
        String.ofList fraction)

theorem fixed_of_isFinite {x : Binary64} (h : x.isFinite = true) (p : Nat) :
    ∃ count, x.fixed p = x.signText ++ Decimal.withPlaces p count ∧ x.RoundsTo p count := by
  have hfinite : x.magnitudeBits < infinityBits := of_decide_eq_true h
  have hnan : x.isNaN = false := decide_eq_false (by omega)
  have hinfinite : x.isInfinite = false := by
    rw [isInfinite, beq_eq_false_iff_ne]
    omega
  have hratio : ((x.toRatio.1 * Nat.pow 10 p : Nat) : ℚ) / x.toRatio.2 = x.magnitude * 10 ^ p := by
    rw [← toRatio_ratio x, Nat.pow_eq]
    push_cast
    ring
  have hnear := roundDiv_error (x.toRatio.1 * Nat.pow 10 p) x.toRatio_den_pos
  have heven := roundDiv_even (x.toRatio.1 * Nat.pow 10 p) x.toRatio_den_pos
  rw [hratio] at hnear heven
  refine ⟨roundDiv (x.toRatio.1 * Nat.pow 10 p) x.toRatio.2, ?_, hnear, heven⟩
  rw [fixed, hnan, hinfinite]
  rfl

theorem ofList_signText (x : Binary64) :
    String.ofList x.signText = if x.isNegative then "-" else "" := by
  rw [signText]
  split <;> rfl

theorem fixedText_toFixed (hp : 0 < p) (x : Binary64) : x.FixedText p (x.toFixed p) := by
  by_cases hnan : x.isNaN = true
  · rw [toFixed, fixed, if_pos hnan]
    exact .nan hnan
  by_cases hinfinite : x.isInfinite = true
  · rw [toFixed, fixed, if_neg hnan, if_pos hinfinite, String.ofList_append, ofList_signText]
    exact .infinite hinfinite
  have hfinite : x.isFinite = true := by
    rw [isInfinite, beq_iff_eq] at hinfinite
    rw [isNaN, decide_eq_true_eq] at hnan
    exact decide_eq_true (by omega)
  obtain ⟨count, hfixed, hcount⟩ := fixed_of_isFinite hfinite p
  obtain ⟨whole, fraction, hplaces, hplaced⟩ := Decimal.withPlaces_isPlaced hp count
  have htext : x.toFixed p = (if x.isNegative then "-" else "") ++ String.ofList whole ++ "." ++
      String.ofList fraction := by
    rw [toFixed, hfixed, hplaces, List.append_cons, String.ofList_append, String.ofList_append,
      String.ofList_append, ofList_signText, String.append_assoc, String.append_assoc,
      String.append_assoc]
  rw [htext]
  exact .finite hfinite hcount hplaced

/-- What is printed is the nearest count of units of the last place. -/
theorem IsWithin.fixed_eq {x : Binary64} {v ε : ℚ} (h : x.IsWithin v ε) (p : Nat) :
    ∃ count, x.fixed p = Decimal.withPlaces p count ∧
      |(count : ℚ) - v * 10 ^ p| ≤ 1 / 2 + ε * 10 ^ p := by
  obtain ⟨count, hfixed, hcount⟩ := fixed_of_isFinite h.isFinite p
  refine ⟨count, ?_, ?_⟩
  · rw [hfixed, signText, h.isNegative]
    rfl
  · have hscaled : |x.magnitude * 10 ^ p - v * 10 ^ p| ≤ ε * 10 ^ p := by
      rw [← sub_mul, abs_mul, abs_of_pos (show (0 : ℚ) < 10 ^ p by positivity)]
      exact mul_le_mul_of_nonneg_right h.error (by positivity)
    calc _ ≤ _ := abs_sub_le _ (x.magnitude * 10 ^ p) _
      _ ≤ 1 / 2 + ε * 10 ^ p := add_le_add hcount.near hscaled

end Binary64

end NoiseTimeline
