import NoiseTimeline.Proofs.Number.Digits
import NoiseTimeline.Proofs.Text.Search

/-! Texts that differ only in some numbers. Looking for a text without digits, and
replacing it, cannot tell them apart. -/

namespace NoiseTimeline.Text

variable {pat value value' s t : List Char}

theorem replaceFrom_eq_drop (pat value : List Char) (skip : Nat) (s : List Char) :
    replaceFrom pat value skip s = replaceAll pat value (s.drop skip) := by
  induction s generalizing skip with
  | nil => cases skip <;> rfl
  | cons c s ih =>
    cases skip with
    | zero => rfl
    | succ skip => exact ih skip

theorem replaceAll_append (hne : pat ≠ []) (s : List Char) :
    replaceAll pat value (pat ++ s) = value ++ replaceAll pat value s := by
  obtain ⟨c, pat', rfl⟩ := List.exists_cons_of_ne_nil hne
  have hpre : (c :: pat').isPrefixOf (c :: (pat' ++ s)) = true :=
    List.isPrefixOf_iff_prefix.mpr (List.prefix_append (c :: pat') s)
  have hskip : replaceFrom (c :: pat') value ((c :: pat').length - 1) (pat' ++ s) =
      replaceAll (c :: pat') value s := by
    rw [replaceFrom_eq_drop, List.length_cons, Nat.add_sub_cancel, List.drop_left]
  rw [List.cons_append, replaceAll, replaceFrom, if_pos hpre, hskip]

theorem replaceAll_cons {c : Char} (h : ¬ pat <+: c :: s) :
    replaceAll pat value (c :: s) = c :: replaceAll pat value s := by
  rw [replaceAll, replaceFrom, if_neg]
  · rfl
  · rwa [List.isPrefixOf_iff_prefix]

def IsNumber (d : List Char) : Prop := d ≠ [] ∧ ∀ c ∈ d, isDigit c = true

theorem isNumber_digitTexts (n : Nat) : IsNumber (Decimal.digitTexts n) :=
  ⟨Decimal.digitTexts_ne_nil n, fun _ => Decimal.isDigit_of_mem_digitTexts⟩

/-- A text that is looked for and has no digits. -/
structure IsMark (pat : List Char) : Prop where
  ne_nil : pat ≠ []
  not_digit : ∀ c ∈ pat, isDigit c = false

instance (pat : List Char) : Decidable (IsMark pat) :=
  decidable_of_iff (pat ≠ [] ∧ pat.all (fun c => !isDigit c) = true)
    ⟨fun h => ⟨h.1, by simpa using h.2⟩, fun h => ⟨h.ne_nil, by simpa using h.not_digit⟩⟩

theorem IsMark.not_prefix_of_digit (h : IsMark pat) {c : Char} (hc : isDigit c = true) :
    ¬ pat <+: c :: s := by
  obtain ⟨a, pat', rfl⟩ := List.exists_cons_of_ne_nil h.ne_nil
  refine not_prefix_cons ?_
  rintro rfl
  exact absurd hc (by simp [h.not_digit a List.mem_cons_self])

theorem IsMark.infix_number_append (h : IsMark pat) {d : List Char} (hd : IsNumber d) :
    pat <:+: d ++ s ↔ pat <:+: s := by
  constructor
  · intro hpat
    have hapart : ∀ c ∈ d, c ∉ pat := by
      intro c hc hmem
      exact absurd (hd.2 c hc) (by simp [h.not_digit c hmem])
    rcases infix_append_digits (a := []) hd.1 hapart hpat with hnil | hs
    · exact absurd (List.infix_nil.mp hnil) h.ne_nil
    · exact hs
  · exact fun hs => hs.trans (List.suffix_append d s).isInfix

theorem IsMark.replaceAll_number_append (h : IsMark pat) {d : List Char}
    (hd : ∀ c ∈ d, isDigit c = true) :
    replaceAll pat value (d ++ s) = d ++ replaceAll pat value s := by
  induction d with
  | nil => rfl
  | cons c d ih =>
    rw [List.cons_append, replaceAll_cons (h.not_prefix_of_digit (hd c List.mem_cons_self)),
      ih fun e he => hd e (List.mem_cons_of_mem _ he), List.cons_append]

/-- The texts are the same but for numbers at the same places. -/
inductive SameButNumbers : List Char → List Char → Prop
  | nil : SameButNumbers [] []
  | cons (c : Char) {s t : List Char} (h : SameButNumbers s t) : SameButNumbers (c :: s) (c :: t)
  | number {d e s t : List Char} (hd : IsNumber d) (he : IsNumber e) (h : SameButNumbers s t) :
      SameButNumbers (d ++ s) (e ++ t)

namespace SameButNumbers

theorem refl (s : List Char) : SameButNumbers s s := by
  induction s with
  | nil => exact .nil
  | cons c s ih => exact .cons c ih

theorem symm (h : SameButNumbers s t) : SameButNumbers t s := by
  induction h with
  | nil => exact .nil
  | cons c _ ih => exact .cons c ih
  | number hd he _ ih => exact .number he hd ih

theorem append (hv : SameButNumbers value value') (h : SameButNumbers s t) :
    SameButNumbers (value ++ s) (value' ++ t) := by
  induction hv with
  | nil => exact h
  | cons c _ ih => exact .cons c ih
  | number hd he _ ih =>
    rw [List.append_assoc, List.append_assoc]
    exact .number hd he ih

theorem of_numbers (hs : IsNumber s) (ht : IsNumber t) : SameButNumbers s t := by
  have h := SameButNumbers.number hs ht .nil
  rwa [List.append_nil, List.append_nil] at h

theorem of_append (hpat : ∀ c ∈ pat, isDigit c = false) (h : SameButNumbers (pat ++ s) t) :
    ∃ t', t = pat ++ t' ∧ SameButNumbers s t' := by
  induction pat generalizing t with
  | nil => exact ⟨t, rfl, h⟩
  | cons a pat ih =>
    have hrest : ∀ c ∈ pat, isDigit c = false := fun c hc => hpat c (List.mem_cons_of_mem _ hc)
    generalize hu : a :: pat ++ s = u at h
    cases h with
    | nil => cases hu
    | cons c h =>
      obtain ⟨rfl, rfl⟩ := List.cons.inj hu
      obtain ⟨t', rfl, h'⟩ := ih hrest h
      exact ⟨t', rfl, h'⟩
    | number hd he h =>
      rename_i d e s' t'
      obtain ⟨b, d', rfl⟩ := List.exists_cons_of_ne_nil hd.1
      obtain rfl : a = b := (List.cons.inj hu).1
      exact absurd (hd.2 a List.mem_cons_self) (by simp [hpat a List.mem_cons_self])

theorem prefix_iff (h : SameButNumbers s t) (hpat : IsMark pat) : pat <+: s ↔ pat <+: t := by
  constructor
  · rintro ⟨rest, rfl⟩
    obtain ⟨t', rfl, -⟩ := h.of_append hpat.not_digit
    exact List.prefix_append pat t'
  · rintro ⟨rest, rfl⟩
    obtain ⟨s', rfl, -⟩ := h.symm.of_append hpat.not_digit
    exact List.prefix_append pat s'

theorem infix_iff (h : SameButNumbers s t) (hpat : IsMark pat) : pat <:+: s ↔ pat <:+: t := by
  induction h with
  | nil => rfl
  | cons c h ih =>
    rw [List.infix_cons_iff, List.infix_cons_iff, ih, (SameButNumbers.cons c h).prefix_iff hpat]
  | number hd he _ ih => rw [hpat.infix_number_append hd, hpat.infix_number_append he, ih]

theorem replaceAll (hpat : IsMark pat) (hv : SameButNumbers value value') (h : SameButNumbers s t) :
    SameButNumbers (replaceAll pat value s) (replaceAll pat value' t) := by
  -- An occurrence of the mark or a number takes more than one step at once.
  induction hn : s.length using Nat.strong_induction_on generalizing s t with
  | _ n ih =>
    by_cases hpre : pat <+: s
    · obtain ⟨s', rfl⟩ := hpre
      obtain ⟨t', rfl, h'⟩ := h.of_append hpat.not_digit
      have hpos : 0 < pat.length := List.length_pos_iff.mpr hpat.ne_nil
      rw [replaceAll_append hpat.ne_nil, replaceAll_append hpat.ne_nil]
      rw [List.length_append] at hn
      exact hv.append (ih s'.length (by omega) h' rfl)
    · have hpre' : ¬ pat <+: t := fun ht => hpre ((h.prefix_iff hpat).mpr ht)
      cases h with
      | nil => exact .nil
      | cons c h =>
        rw [replaceAll_cons hpre, replaceAll_cons hpre']
        rw [List.length_cons] at hn
        exact .cons c (ih _ (by omega) h rfl)
      | number hd he h =>
        rename_i d e s t
        rw [hpat.replaceAll_number_append hd.2, hpat.replaceAll_number_append he.2]
        have hpos : 0 < d.length := List.length_pos_iff.mpr hd.1
        rw [List.length_append] at hn
        exact .number hd he (ih s.length (by omega) h rfl)

end SameButNumbers

end NoiseTimeline.Text
