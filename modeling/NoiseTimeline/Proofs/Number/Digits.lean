import Mathlib.Algebra.Group.Nat.Defs
import Mathlib.Data.Nat.Basic
import NoiseTimeline.Number.Decimal
import NoiseTimeline.Number.Literal

/-! Digits of natural numbers. The printed digits of a number are digits only
and both readers give the number back. -/

namespace NoiseTimeline

theorem digitValue?_of_isDigit {c : Char} (h : c.isDigit = true) :
    digitValue? c = some (c.toNat - '0'.toNat) := by
  rw [Char.isDigit, Bool.and_eq_true, decide_eq_true_eq, decide_eq_true_eq] at h
  exact if_pos h

theorem isDigit_eq (c : Char) : isDigit c = c.isDigit := by
  cases h : c.isDigit with
  | true => rw [isDigit, digitValue?_of_isDigit h, Option.isSome_some]
  | false =>
    rw [Char.isDigit, Bool.and_eq_false_iff, decide_eq_false_iff_not, decide_eq_false_iff_not] at h
    rw [isDigit, digitValue?, if_neg (fun hc => h.elim (· hc.1) (· hc.2)), Option.isSome_none]

theorem digitsFrom_eq_ofDigitChars {ds : List Char} (h : ∀ c ∈ ds, isDigit c = true) (acc : Nat) :
    digitsFrom acc ds = Nat.ofDigitChars 10 ds acc := by
  induction ds generalizing acc with
  | nil => rfl
  | cons c ds ih =>
    have hc : c.isDigit = true := by rw [← isDigit_eq]; exact h c List.mem_cons_self
    have ht := ih (fun d hd => h d (List.mem_cons_of_mem _ hd))
    rw [Nat.ofDigitChars_cons, ← ht]
    simp [digitsFrom, digitValue?_of_isDigit hc]

namespace Decimal

theorem isDigit_of_mem_digitTexts {n : Nat} {c : Char} (h : c ∈ digitTexts n) :
    isDigit c = true := by
  rw [isDigit_eq]
  exact Nat.isDigit_of_mem_toDigits (by decide) (by decide) h

theorem digitTexts_ne_nil (n : Nat) : digitTexts n ≠ [] := Nat.toDigits_ne_nil

theorem toList_toString (n : Nat) : (toString n).toList = digitTexts n := Nat.toList_repr

theorem digitsFrom_digitTexts (n : Nat) : digitsFrom 0 (digitTexts n) = n := by
  rw [digitsFrom_eq_ofDigitChars fun c => isDigit_of_mem_digitTexts]
  exact Nat.ofDigitChars_ten_toDigits

end Decimal

theorem digitsFrom_append (acc : Nat) (ds es : List Char) :
    digitsFrom acc (ds ++ es) = digitsFrom (digitsFrom acc ds) es := List.foldl_append

theorem digitsFrom_replicate_zero (acc n : Nat) :
    digitsFrom acc (List.replicate n '0') = acc * 10 ^ n := by
  have h : ∀ c ∈ List.replicate n '0', isDigit c = true := by
    intro c hc
    rw [List.eq_of_mem_replicate hc]
    decide
  rw [digitsFrom_eq_ofDigitChars h, Nat.ofDigitChars_replicate_zero, Nat.mul_comm]

theorem le_digitsFrom (acc : Nat) (ds : List Char) : acc ≤ digitsFrom acc ds := by
  induction ds generalizing acc with
  | nil => exact Nat.le_refl acc
  | cons c ds ih =>
    have h := ih (10 * acc + (digitValue? c).getD 0)
    change acc ≤ digitsFrom (10 * acc + (digitValue? c).getD 0) ds
    omega

theorem countFrom_digits {limit acc : Nat} {ds : List Char} (hds : ∀ c ∈ ds, isDigit c = true)
    (hlim : digitsFrom acc ds < limit) : countFrom limit acc ds = .ok (digitsFrom acc ds) := by
  induction ds generalizing acc with
  | nil => rfl
  | cons c ds ih =>
    obtain ⟨d, hd⟩ := Option.isSome_iff_exists.mp (hds c List.mem_cons_self)
    have hstep : digitsFrom acc (c :: ds) = digitsFrom (10 * acc + d) ds := by
      simp [digitsFrom, hd]
    rw [hstep] at hlim ⊢
    have hle := le_digitsFrom (10 * acc + d) ds
    simp only [countFrom, hd, if_neg (show ¬ limit ≤ 10 * acc + d by omega)]
    exact ih (fun e he => hds e (List.mem_cons_of_mem _ he)) hlim

theorem readCount_digits {limit : Nat} {ds : List Char} (hne : ds ≠ [])
    (hds : ∀ c ∈ ds, isDigit c = true) (hlim : digitsFrom 0 ds < limit) :
    readCount limit ds = .ok (digitsFrom 0 ds) := by
  have hplus : '+' ∉ ds := fun hmem => absurd (hds '+' hmem) (by decide)
  have hread : readCount limit ds = countFrom limit 0 ds := by
    rw [readCount.eq_def]
    split
    · exact absurd rfl hne
    · simp at hplus
    · simp at hplus
    · rfl
  rw [hread, countFrom_digits hds hlim]

theorem readCount_digitTexts {limit n : Nat} (h : n < limit) :
    readCount limit (Decimal.digitTexts n) = .ok n := by
  have hval := Decimal.digitsFrom_digitTexts n
  rw [readCount_digits (Decimal.digitTexts_ne_nil n) (fun c => Decimal.isDigit_of_mem_digitTexts)
    (by omega), hval]

theorem countFrom_lt {limit acc n : Nat} {s : List Char} (hacc : acc < limit)
    (h : countFrom limit acc s = .ok n) : n < limit := by
  induction s generalizing acc with
  | nil =>
    cases h
    exact hacc
  | cons c s ih =>
    rw [countFrom] at h
    split at h
    · cases h
    · split at h
      · cases h
      · exact ih (by omega) h

theorem readCount_lt {limit n : Nat} {s : List Char} (hlim : 0 < limit)
    (h : readCount limit s = .ok n) :
    n < limit := by
  rw [readCount.eq_def] at h
  split at h
  · cases h
  · cases h
  · exact countFrom_lt hlim h
  · exact countFrom_lt hlim h

/-! The longest run of digits at the start of a text. -/

theorem takeWhile_isDigit_append {ds s : List Char} (hds : ∀ c ∈ ds, isDigit c = true)
    (hs : ∀ c ∈ s.head?, isDigit c = false) : (ds ++ s).takeWhile isDigit = ds := by
  rw [List.takeWhile_append_of_pos hds]
  cases s with
  | nil => simp
  | cons c s => rw [List.takeWhile_cons_of_neg (by simp [hs c rfl]), List.append_nil]

theorem dropWhile_isDigit_append {ds s : List Char} (hds : ∀ c ∈ ds, isDigit c = true)
    (hs : ∀ c ∈ s.head?, isDigit c = false) : (ds ++ s).dropWhile isDigit = s := by
  rw [List.dropWhile_append_of_pos hds]
  cases s with
  | nil => rfl
  | cons c s => rw [List.dropWhile_cons_of_neg (by simp [hs c rfl])]

namespace Decimal

variable {m n : Nat} {s t : List Char}

theorem head?_digitTexts (hn : 0 < n) : (digitTexts n).head? ≠ some '0' := by
  have hsmall : ∀ m < 10, 0 < m → m.digitChar ≠ '0' := by decide
  induction n using Nat.strong_induction_on with
  | h n ih =>
    rw [digitTexts]
    by_cases hlt : n < 10
    · rw [Nat.toDigits_of_lt_base hlt, List.head?_cons]
      exact fun h => hsmall n hlt hn (Option.some.inj h)
    · have hnext := ih (n / 10) (by omega) (by omega)
      rw [Nat.toDigits_of_base_le (by decide) (by omega), List.head?_append,
        Option.or_of_isSome (List.isSome_head?.mpr Nat.toDigits_ne_nil)]
      exact hnext

theorem digitTexts_inj (h : digitTexts m = digitTexts n) : m = n := by
  rw [← digitsFrom_digitTexts m, h, digitsFrom_digitTexts]

theorem digitTexts_append_inj (hs : ∀ c ∈ s.head?, isDigit c = false)
    (ht : ∀ c ∈ t.head?, isDigit c = false)
    (h : digitTexts m ++ s = digitTexts n ++ t) : m = n ∧ s = t := by
  have hdigits : ∀ n, ∀ c ∈ digitTexts n, isDigit c = true := fun _ _ => isDigit_of_mem_digitTexts
  have hnumber := congrArg (List.takeWhile isDigit) h
  have hrest := congrArg (List.dropWhile isDigit) h
  rw [takeWhile_isDigit_append (hdigits m) hs, takeWhile_isDigit_append (hdigits n) ht] at hnumber
  rw [dropWhile_isDigit_append (hdigits m) hs, dropWhile_isDigit_append (hdigits n) ht] at hrest
  exact ⟨digitTexts_inj hnumber, hrest⟩

end Decimal

end NoiseTimeline
