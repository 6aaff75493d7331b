import NoiseTimeline.Elapsed
import NoiseTimeline.Proofs.Number.Places

/-! Elapsed times as clock readings. A reading denotes one count of hundredths of a second, and it
is the nearest to the time; but the sixtieth second is not carried into the minutes. -/

namespace NoiseTimeline

/-! Numbers filled up with zeros -/

theorem padZeros_append {width : Nat} {s rest : List Char} :
    padZeros (width + rest.length) (s ++ rest) = padZeros width s ++ rest := by
  rw [padZeros, padZeros, List.length_append, Nat.add_sub_add_right, List.append_assoc]

theorem length_padZeros (width : Nat) (s : List Char) :
    (padZeros width s).length = max width s.length := by
  rw [padZeros, List.length_append, List.length_replicate]
  omega

theorem digitsValue_padZeros (width : Nat) (s : List Char) :
    digitsValue (padZeros width s) = digitsValue s :=
  digitsValue_replicate_append _ s

theorem isDigit_padZeros {width : Nat} {s : List Char} (h : ∀ c ∈ s, isDigit c = true) :
    ∀ c ∈ padZeros width s, isDigit c = true := isDigit_replicate_append h

theorem isDigit_padZeros_digitTexts (width n : Nat) :
    ∀ c ∈ padZeros width (Decimal.digitTexts n), isDigit c = true :=
  isDigit_padZeros fun _ => Decimal.isDigit_of_mem_digitTexts

theorem digitsValue_padZeros_digitTexts (width n : Nat) :
    digitsValue (padZeros width (Decimal.digitTexts n)) = n := by
  rw [digitsValue_padZeros]
  exact Decimal.digitsFrom_digitTexts n

theorem length_padZeros_digitTexts {width n : Nat} (hw : 0 < width) (h : n < 10 ^ width) :
    (padZeros width (Decimal.digitTexts n)).length = width := by
  rw [length_padZeros, Nat.max_eq_left (Decimal.length_digitTexts_le hw h)]

/-- At least two digits for the hours, and two each for minutes, seconds and hundredths of a
second. -/
structure ClockText where
  hours : List Char
  minutes : List Char
  seconds : List Char
  hundredths : List Char
  areDigits : ∀ ds ∈ [hours, minutes, seconds, hundredths], ∀ c ∈ ds, isDigit c = true
  length_hours : 2 ≤ hours.length
  length_minutes : minutes.length = 2
  length_seconds : seconds.length = 2
  length_hundredths : hundredths.length = 2

namespace ClockText

def chars (c : ClockText) : List Char :=
  c.hours ++ ':' :: (c.minutes ++ ':' :: (c.seconds ++ '.' :: c.hundredths))

def text (c : ClockText) : String := String.ofList c.chars

/-- The time that the reading denotes, in hundredths of a second. -/
def count (c : ClockText) : Nat :=
  ((digitsValue c.hours * 60 + digitsValue c.minutes) * 60 + digitsValue c.seconds) * 100 +
    digitsValue c.hundredths

/-- No two readings are spelled alike: no digit follows the hours, and the other lengths are
fixed. -/
theorem chars_inj {c d : ClockText} (h : c.chars = d.chars) : c = d := by
  have hcolon : ∀ s : List Char, ∀ a ∈ (':' :: s).head?, isDigit a = false := by
    rintro s a ⟨⟩
    decide
  have hhours := congrArg (List.takeWhile isDigit) h
  have hrest := congrArg (List.dropWhile isDigit) h
  rw [chars, chars, takeWhile_isDigit_append (c.areDigits _ (by simp)) (hcolon _),
    takeWhile_isDigit_append (d.areDigits _ (by simp)) (hcolon _)] at hhours
  rw [chars, chars, dropWhile_isDigit_append (c.areDigits _ (by simp)) (hcolon _),
    dropWhile_isDigit_append (d.areDigits _ (by simp)) (hcolon _)] at hrest
  obtain ⟨hminutes, hrest⟩ :=
    List.append_inj (List.cons.inj hrest).2 (c.length_minutes.trans d.length_minutes.symm)
  obtain ⟨hseconds, hrest⟩ :=
    List.append_inj (List.cons.inj hrest).2 (c.length_seconds.trans d.length_seconds.symm)
  have hhundredths := (List.cons.inj hrest).2
  cases c
  cases d
  subst hhours hminutes hseconds hhundredths
  rfl

theorem text_inj {c d : ClockText} (h : c.text = d.text) : c = d :=
  chars_inj (String.ofList_injective h)

end ClockText

namespace Elapsed

variable {e : Elapsed}

/-- The time since the last whole minute, in nanoseconds. -/
def ofMinute (e : Elapsed) : Nat := e.seconds % 60 * 10 ^ 9 + e.nanoseconds

/-- The two roundings before the last one are far less than a nanosecond. -/
theorem secondsOfMinute_isWithin (he : e.nanoseconds < 10 ^ 9) :
    e.secondsOfMinute.IsWithin (e.ofMinute / 10 ^ 9) (2 ^ (-46 : ℤ)) := by
  have hseconds : ((e.seconds % 60 : Nat) : ℚ) ≤ 59 := by
    exact_mod_cast Nat.le_of_lt_succ (Nat.mod_lt e.seconds (by decide))
  have hnanoseconds : (e.nanoseconds : ℚ) / (1000000000 : Nat) < 1 := by
    rw [div_lt_one (by norm_num)]
    exact_mod_cast he
  have hwhole : (Binary64.ofNat (e.seconds % 60)).IsWithin ((e.seconds % 60 : Nat) : ℚ)
      (2 ^ ((6 : ℤ) - 54)) :=
    Binary64.isWithin_ofNat (hseconds.trans_lt (by norm_num)) (by decide) (by decide)
  have hpart : (Binary64.ofRatio false e.nanoseconds 1000000000).IsWithin
      ((e.nanoseconds : ℚ) / (1000000000 : Nat))
      (2 ^ ((0 : ℤ) - 54)) :=
    Binary64.isWithin_ofRatio (by decide) (by simpa using hnanoseconds) (by decide) (by decide)
  have hsum :=
    hwhole.add hpart (show _ < (2 : ℚ) ^ (6 : ℤ) by norm_num at hnanoseconds ⊢; linarith)
      (by decide) (by decide)
  refine ⟨hsum.isNegative, hsum.isFinite, ?_⟩
  have hvalue : ((e.seconds % 60 : Nat) : ℚ) + (e.nanoseconds : ℚ) / (1000000000 : Nat) =
      e.ofMinute / 10 ^ 9 := by
    rw [ofMinute]
    push_cast
    ring
  rw [← hvalue]
  exact hsum.error.trans (by norm_num)

/-- What is printed for the seconds is the nearest count of hundredths, or one of the two that are
equally near. -/
theorem exists_hundredths (he : e.nanoseconds < 10 ^ 9) :
    ∃ count, e.secondsOfMinute.fixed 2 = Decimal.withPlaces 2 count ∧
    count * 10 ^ 7 ≤ e.ofMinute + 5 * 10 ^ 6 ∧ e.ofMinute ≤ count * 10 ^ 7 + 5 * 10 ^ 6 := by
  obtain ⟨count, hfixed, herror⟩ := (secondsOfMinute_isWithin he).fixed_eq 2
  refine ⟨count, hfixed, ?_⟩
  rw [abs_le] at herror
  obtain ⟨hlow, hhigh⟩ := herror
  norm_num at hlow hhigh
  -- Both sides are whole nanoseconds, so that what is less than one nanosecond too much does
  -- not matter.
  have hup : ((count * 10 ^ 7 : Nat) : ℚ) < ((e.ofMinute + 5 * 10 ^ 6 + 1 : Nat) : ℚ) := by
    push_cast
    linarith
  have hdown : ((e.ofMinute : Nat) : ℚ) < ((count * 10 ^ 7 + 5 * 10 ^ 6 + 1 : Nat) : ℚ) := by
    push_cast
    linarith
  exact ⟨Nat.le_of_lt_succ (by exact_mod_cast hup), Nat.le_of_lt_succ (by exact_mod_cast hdown)⟩

/-- The one time in each minute that is equally near to two counts and next to the sixtieth second
is rounded down. -/
theorem fixed_of_tie (h : e.ofMinute = 59995000000) (he : e.nanoseconds < 10 ^ 9) :
    e.secondsOfMinute.fixed 2 = "59.99".toList := by
  have hseconds : e.seconds % 60 = 59 := by
    rw [ofMinute] at h
    omega
  have hnanoseconds : e.nanoseconds = 995000000 := by
    rw [ofMinute] at h
    omega
  rw [secondsOfMinute, hseconds, hnanoseconds]
  decide +kernel

theorem exists_seconds (he : e.nanoseconds < 10 ^ 9) : ∃ count whole fraction,
    padZeros 5 (e.secondsOfMinute.fixed 2) = whole ++ '.' :: fraction ∧ whole.length = 2 ∧
    fraction.length = 2 ∧ (∀ c ∈ whole ++ fraction, isDigit c = true) ∧
    digitsValue whole = count / 100 ∧ digitsValue fraction = count % 100 ∧
    (count * 10 ^ 7 ≤ e.ofMinute + 5 * 10 ^ 6 ∧ e.ofMinute ≤ count * 10 ^ 7 + 5 * 10 ^ 6) ∧
    (count / 100 = 60 ↔ 59995000000 < e.ofMinute) := by
  obtain ⟨count, hfixed, hlow, hhigh⟩ := exists_hundredths he
  have hminute : e.ofMinute < 60 * 10 ^ 9 := by
    rw [ofMinute]
    omega
  obtain ⟨whole, fraction, hplaces, hplaced⟩ :=
    Decimal.withPlaces_isPlaced (show 0 < 2 by decide) count
  have hfour : (Decimal.digitTexts count).length ≤ 4 :=
    Decimal.length_digitTexts_le (by decide) (by omega)
  have hwhole := hplaced.length_whole
  have hfraction := hplaced.length
  have hfive : 5 = 2 + ('.' :: fraction).length := by rw [List.length_cons, hfraction]
  refine ⟨count, padZeros 2 whole, fraction, ?_, ?_, hfraction, ?_, ?_, hplaced.remainder,
    ⟨hlow, hhigh⟩, ?_⟩
  · rw [hfixed, hplaces, hfive, padZeros_append]
  · rw [length_padZeros]
    omega
  · intro c hc
    rcases List.mem_append.mp hc with hc | hc
    · exact isDigit_padZeros (fun c hc => hplaced.isDigit c (List.mem_append_left _ hc)) c hc
    · exact hplaced.isDigit c (List.mem_append_right _ hc)
  · rw [digitsValue_padZeros]
    exact hplaced.value
  · by_cases htie : e.ofMinute = 59995000000
    · -- Here the two nearest counts are 5999 and 6000, and only the digits tell them apart.
      have hne : count ≠ 6000 := by
        rintro rfl
        rw [fixed_of_tie htie he] at hfixed
        exact absurd hfixed (by decide +kernel)
      omega
    · omega

/-- Every elapsed time is spelled as one clock reading. Its hours and minutes are the whole ones,
and what it denotes is within half a hundredth of a second. But more than 59.995 seconds after a
whole minute it has the sixtieth second, which is not carried into the minutes. -/
theorem text_is_nearest_reading (he : e.nanoseconds < 10 ^ 9) :
    ∃ c : ClockText, (∀ d : ClockText, e.text = d.text ↔ d = c) ∧
    digitsValue c.hours = e.seconds / 3600 ∧ digitsValue c.minutes = e.seconds % 3600 / 60 ∧
    digitsValue c.minutes < 60 ∧ digitsValue c.seconds ≤ 60 ∧
    (digitsValue c.seconds = 60 ↔ 59995000000 < e.seconds % 60 * 10 ^ 9 + e.nanoseconds) ∧
    c.count * 10 ^ 7 ≤ e.seconds * 10 ^ 9 + e.nanoseconds + 5 * 10 ^ 6 ∧
    e.seconds * 10 ^ 9 + e.nanoseconds ≤ c.count * 10 ^ 7 + 5 * 10 ^ 6 := by
  obtain ⟨count, whole, fraction, htext, hwhole, hfraction, hdigits, hseconds, hhundredths, hnear,
      hsixty⟩ := exists_seconds he
  have hhours := digitsValue_padZeros_digitTexts 2 (e.seconds / 3600)
  have hminutes := digitsValue_padZeros_digitTexts 2 (e.seconds % 3600 / 60)
  have hlength : (padZeros 2 (Decimal.digitTexts (e.seconds % 3600 / 60))).length = 2 :=
    length_padZeros_digitTexts (by decide) (by omega)
  have hareDigits : ∀ ds ∈ [padZeros 2 (Decimal.digitTexts (e.seconds / 3600)),
      padZeros 2 (Decimal.digitTexts (e.seconds % 3600 / 60)), whole, fraction],
      ∀ c ∈ ds, isDigit c = true := by
    simp only [List.mem_cons, List.not_mem_nil, or_false, forall_eq_or_imp, forall_eq]
    exact ⟨isDigit_padZeros_digitTexts _ _, isDigit_padZeros_digitTexts _ _,
      fun c hc => hdigits c (List.mem_append_left _ hc),
        fun c hc => hdigits c (List.mem_append_right _ hc)⟩
  obtain ⟨c, hc⟩ : ∃ c : ClockText,
      c = ⟨_, _, whole, fraction, hareDigits, by rw [length_padZeros]; omega, hlength, hwhole,
    hfraction⟩ := ⟨_, rfl⟩
  have hspelled : e.text = c.text := by
    rw [text, reading, htext, ClockText.text, ClockText.chars, hc, List.append_assoc,
      List.cons_append]
  refine ⟨c,
    fun d => ⟨fun hd => ClockText.text_inj (hd.symm.trans hspelled), fun hd => hd ▸ hspelled⟩, ?_⟩
  rw [ClockText.count, hc]
  dsimp only
  rw [hhours, hminutes, hseconds, hhundredths]
  rw [ofMinute] at hnear hsixty
  omega

theorem text_of_roundTime :
    ∃ c : ClockText, (⟨3723, 450000000⟩ : Elapsed).text = c.text ∧ digitsValue c.hours = 1 ∧
      digitsValue c.minutes = 2 ∧ digitsValue c.seconds ≠ 60 := by
  obtain ⟨c, hspelled, hhours, hminutes, -, -, hsixty, -⟩ :=
    text_is_nearest_reading (show (⟨3723, 450000000⟩ : Elapsed).nanoseconds < 10 ^ 9 by decide)
  exact ⟨c, (hspelled c).mpr rfl, hhours, hminutes, fun h => absurd (hsixty.mp h) (by decide)⟩

/-- The reading of a sixtieth second. -/
def sixtieth : ClockText where
  hours := ['0', '0']
  minutes := ['0', '0']
  seconds := ['6', '0']
  hundredths := ['0', '0']
  areDigits := by simp [isDigit, digitValue?]
  length_hours := Nat.le_refl 2
  length_minutes := rfl
  length_seconds := rfl
  length_hundredths := rfl

/-- Just before the first minute is over, the reading has a sixtieth second. -/
theorem lastInstant_has_sixty_seconds :
    ¬ ∃ c : ClockText, (⟨59, 999999999⟩ : Elapsed).text = c.text ∧ digitsValue c.minutes < 60 ∧
      digitsValue c.seconds < 60 := by
  rintro ⟨c, hc, -, hlt⟩
  have htext : (⟨59, 999999999⟩ : Elapsed).text = sixtieth.text := by decide +kernel
  rw [← ClockText.text_inj (htext.symm.trans hc)] at hlt
  exact absurd hlt (by decide)

end Elapsed

end NoiseTimeline
