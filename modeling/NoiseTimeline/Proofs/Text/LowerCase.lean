import NoiseTimeline.Proofs.Text.Search
import NoiseTimeline.Text.LowerCase

/-! A word in small letters of ASCII is found in a lower-case form where it is found with the
letters of ASCII alone made small. The characters above ASCII have nothing to do with it but for
two, and those become a letter that the word does not have, or one that it cannot go on from. -/

namespace NoiseTimeline.Text

variable {endsWord : List Char → List Char → Bool} {before word s : List Char} {sigma c : Char}

/-- Characters of ASCII without the letter `k`, and a last one other than `i`. -/
structure IsAsciiWord (word : List Char) : Prop where
  ascii : ∀ c ∈ word, c.toNat < 0x80
  no_k : 'k' ∉ word
  last : word.getLast? ≠ some 'i'

theorem toNat_ofNat_of_valid {n : Nat} (h : n.isValidChar) : (Char.ofNat n).toNat = n := by
  rw [Char.ofNat, dif_pos h]
  rfl

/-- The small letters of the table are characters above ASCII. -/
theorem capitals_shift_above : ∀ r ∈ capitals, 0x80 ≤ r.first + r.shift ∧
    (r.last + r.shift < 0xd800 ∨ 0xdfff < r.first + r.shift ∧ r.last + r.shift < 0x110000) := by
  decide +kernel

theorem smallLetter?_above {n m : Nat} (h : smallLetter? n = some m) :
    0x80 ≤ (Char.ofNat m).toNat := by
  obtain ⟨r, hr, rfl⟩ := Option.map_eq_some_iff.mp h
  have hrange := List.find?_some hr
  simp only [Bool.and_eq_true, decide_eq_true_eq] at hrange
  obtain ⟨⟨hfirst, hlast⟩, -⟩ := hrange
  obtain ⟨hlow, hvalid⟩ := capitals_shift_above r (List.mem_of_find?_eq_some hr)
  rw [toNat_ofNat_of_valid]
  · omega
  · rw [Nat.isValidChar]
    omega

theorem lowerChar_of_ascii (h : c.toNat < 0x80) : lowerChar sigma c = [lowerAscii c] := by
  rw [lowerChar, if_pos h]

theorem lowerChar_of_above (hsigma : 0x80 ≤ sigma.toNat) (h : ¬ c.toNat < 0x80) :
    lowerChar sigma c = ['i', '\u0307'] ∨
    lowerChar sigma c = ['k'] ∨ ∃ d, lowerChar sigma c = [d] ∧ 0x80 ≤ d.toNat := by
  rw [lowerChar, if_neg h]
  split
  · exact Or.inl rfl
  · split
    · exact Or.inr (Or.inl rfl)
    · refine Or.inr (Or.inr ?_)
      split
      · exact ⟨sigma, rfl, hsigma⟩
      · refine ⟨_, rfl, ?_⟩
        cases hsmall : smallLetter? c.toNat with
        | none => exact Nat.not_lt.mp h
        | some m => exact smallLetter?_above hsmall

theorem not_prefix_of_above {d : Char} {rest : List Char} (hword : IsAsciiWord word)
    (hne : word ≠ []) (hd : 0x80 ≤ d.toNat) :
    ¬ word <+: d :: rest := by
  obtain ⟨c, word, rfl⟩ := List.exists_cons_of_ne_nil hne
  have hc := hword.ascii c List.mem_cons_self
  refine not_prefix_cons ?_
  rintro rfl
  omega

theorem IsAsciiWord.tail (hword : IsAsciiWord (c :: word)) : IsAsciiWord word := by
  refine ⟨fun d hd => hword.ascii d (List.mem_cons_of_mem c hd),
    fun hk => hword.no_k (List.mem_cons_of_mem c hk), ?_⟩
  intro hlast
  refine hword.last ?_
  rw [List.getLast?_cons, hlast]
  rfl

theorem sigma_above (b : Bool) : 0x80 ≤ (if b then 'ς' else 'σ').toNat := by
  cases b <;> decide

/-- What a character above ASCII becomes starts no such word. -/
theorem not_prefix_lowerChar (hword : IsAsciiWord word) (hne : word ≠ [])
    (hsigma : 0x80 ≤ sigma.toNat) (hc : ¬ c.toNat < 0x80) (rest : List Char) :
    ¬ word <+: lowerChar sigma c ++ rest := by
  rcases lowerChar_of_above hsigma hc with hi | hk | ⟨d, hd, habove⟩
  · obtain ⟨d, word, rfl⟩ := List.exists_cons_of_ne_nil hne
    rw [hi, List.cons_append, List.cons_prefix_cons]
    rintro ⟨rfl, hprefix⟩
    have hne' : word ≠ [] := by
      rintro rfl
      exact hword.last rfl
    exact not_prefix_of_above hword.tail hne' (by decide) hprefix
  · obtain ⟨d, word, rfl⟩ := List.exists_cons_of_ne_nil hne
    rw [hk, List.cons_append, List.cons_prefix_cons]
    rintro ⟨rfl, -⟩
    exact hword.no_k List.mem_cons_self
  · rw [hd, List.cons_append]
    exact not_prefix_of_above hword hne habove

theorem infix_lowerChar_iff (hword : IsAsciiWord word) (hne : word ≠ [])
    (hsigma : 0x80 ≤ sigma.toNat) (hc : ¬ c.toNat < 0x80) (rest : List Char) :
    word <:+: lowerChar sigma c ++ rest ↔ word <:+: rest := by
  have hstart := not_prefix_lowerChar hword hne hsigma hc rest
  rcases lowerChar_of_above hsigma hc with hi | hk | ⟨d, hd, -⟩
  · have hmark : ¬ word <+: '\u0307' :: rest := not_prefix_of_above hword hne (by decide)
    rw [hi, List.cons_append] at hstart ⊢
    rw [List.infix_cons_iff, or_iff_right hstart, List.singleton_append, List.infix_cons_iff,
      or_iff_right hmark]
  · rw [hk, List.singleton_append] at hstart ⊢
    rw [List.infix_cons_iff, or_iff_right hstart]
  · rw [hd, List.singleton_append] at hstart ⊢
    rw [List.infix_cons_iff, or_iff_right hstart]

theorem lowerAscii_of_above (hc : ¬ c.toNat < 0x80) : lowerAscii c = c := by
  rw [lowerAscii, if_neg]
  rintro ⟨-, hZ⟩
  have hZ : c.toNat ≤ 90 := hZ
  omega

theorem prefix_lowerFrom_iff (hword : IsAsciiWord word) :
    word <+: lowerFrom endsWord before s ↔ word <+: s.map lowerAscii := by
  induction s generalizing before word with
  | nil => rfl
  | cons c s ih =>
    cases word with
    | nil => simp
    | cons d word =>
      rw [lowerFrom, List.map_cons]
      by_cases hc : c.toNat < 0x80
      · rw [lowerChar_of_ascii hc, List.singleton_append, List.cons_prefix_cons,
          List.cons_prefix_cons, ih hword.tail]
      · have hfolded : ¬ d :: word <+: lowerAscii c :: s.map lowerAscii := by
          rw [lowerAscii_of_above hc]
          exact not_prefix_of_above hword (List.cons_ne_nil d word) (Nat.not_lt.mp hc)
        exact iff_of_false
          (not_prefix_lowerChar hword (List.cons_ne_nil d word) (sigma_above _) hc _) hfolded

theorem infix_lowerFrom_iff (hword : IsAsciiWord word) (hne : word ≠ []) :
    word <:+: lowerFrom endsWord before s ↔ word <:+: s.map lowerAscii := by
  induction s generalizing before with
  | nil => rfl
  | cons c s ih =>
    have hstart : word <+: lowerFrom endsWord before (c :: s) ↔ word <+: (c :: s).map lowerAscii :=
      prefix_lowerFrom_iff hword
    rw [lowerFrom, List.map_cons] at hstart ⊢
    by_cases hc : c.toNat < 0x80
    · rw [lowerChar_of_ascii hc, List.singleton_append] at hstart ⊢
      rw [List.infix_cons_iff, List.infix_cons_iff, ih, hstart]
    · have hfolded : ¬ word <+: lowerAscii c :: s.map lowerAscii := by
        rw [lowerAscii_of_above hc]
        exact not_prefix_of_above hword hne (Nat.not_lt.mp hc)
      rw [infix_lowerChar_iff hword hne (sigma_above _) hc, ih, List.infix_cons_iff,
        or_iff_right hfolded]

theorem infix_lowerCase_iff (hword : IsAsciiWord word) (hne : word ≠ []) :
    word <:+: lowerCase endsWord s ↔ word <:+: s.map lowerAscii := infix_lowerFrom_iff hword hne

end NoiseTimeline.Text
