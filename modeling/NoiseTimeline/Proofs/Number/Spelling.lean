import Mathlib.Data.List.TakeWhile
import NoiseTimeline.Proofs.Number.Digits

/-! How numbers are spelled. A text is read as a count or as a real number just if it is
spelled as one, and the spelling says which it is. -/

namespace NoiseTimeline

def AllDigits (ds : List Char) : Prop := ∀ c ∈ ds, isDigit c = true

/-- Digits after at most one plus sign, with a value below the limit. -/
inductive SpellsCount (limit : Nat) : List Char → Nat → Prop
  | digits {plus ds : List Char} (hplus : plus = [] ∨ plus = ['+']) (hne : ds ≠ [])
      (hds : AllDigits ds)
      (hlt : digitsValue ds < limit) : SpellsCount limit (plus ++ ds) (digitsValue ds)

/-- At most one sign; the minus is the negative one. -/
inductive SpellsSign : List Char → Bool → Prop
  | none : SpellsSign [] false
  | plus : SpellsSign ['+'] false
  | minus : SpellsSign ['-'] true

/-- No exponent, or digits after the letter and at most one sign. -/
inductive SpellsExponent : List Char → Int → Prop
  | none : SpellsExponent [] 0
  | some {mark : Char} {sign ds : List Char} {negative : Bool} (hmark : mark = 'e' ∨ mark = 'E')
      (hsign : SpellsSign sign negative) (hne : ds ≠ []) (hds : AllDigits ds) :
      SpellsExponent (mark :: (sign ++ ds))
        (if negative then -(digitsValue ds : Int) else digitsValue ds)

/-- Digits on one side of the point at least, or without a point, and an exponent. -/
inductive SpellsUnsigned (negative : Bool) : List Char → Binary64 → Prop
  | whole {ds ending : List Char} {e : Int} (hne : ds ≠ []) (hds : AllDigits ds)
      (hending : SpellsExponent ending e) :
      SpellsUnsigned negative (ds ++ ending) (.ofDecimal negative (digitsValue ds) e)
  | point {ds places ending : List Char} {e : Int} (hne : ds ++ places ≠ []) (hds : AllDigits ds)
      (hplaces : AllDigits places)
      (hending : SpellsExponent ending e) :
      SpellsUnsigned negative (ds ++ '.' :: (places ++ ending))
        (.ofDecimal negative (digitsValue (ds ++ places)) (e - places.length))

/-- A sign and then a number, or a word for infinity or NaN in any case of letters. -/
inductive SpellsReal : List Char → Binary64 → Prop
  | number {sign s : List Char} {negative : Bool} {x : Binary64} (hsign : SpellsSign sign negative)
      (hs : SpellsUnsigned negative s x) : SpellsReal (sign ++ s) x
  | infinity {sign word : List Char} {negative : Bool} (hsign : SpellsSign sign negative)
      (hword : word.map lowerAscii = "inf".toList ∨ word.map lowerAscii = "infinity".toList) :
      SpellsReal (sign ++ word) (.infinity negative)
  | nan {sign word : List Char} {negative : Bool} (hsign : SpellsSign sign negative)
      (hword : word.map lowerAscii = "nan".toList) : SpellsReal (sign ++ word) .nan

variable {limit acc n : Nat} {ds es s t sign : List Char} {negative : Bool} {x : Binary64} {e : Int}

theorem of_countFrom (h : countFrom limit acc s = .ok n) :
    AllDigits s ∧ digitsFrom acc s = n ∧ (s ≠ [] → n < limit) := by
  induction s generalizing acc with
  | nil =>
    cases h
    exact ⟨by simp [AllDigits], rfl, fun hne => absurd rfl hne⟩
  | cons c s ih =>
    rw [countFrom] at h
    split at h
    · cases h
    · rename_i d hd
      split at h
      · cases h
      · rename_i hlt
        obtain ⟨hs, hvalue, -⟩ := ih h
        have hc : isDigit c = true := by rw [isDigit, hd, Option.isSome_some]
        refine ⟨List.forall_mem_cons.mpr ⟨hc, hs⟩, ?_, fun _ => countFrom_lt (by omega) h⟩
        rw [← hvalue]
        simp [digitsFrom, hd]

theorem readCount_eq_ok_iff : readCount limit s = .ok n ↔ SpellsCount limit s n := by
  constructor
  · intro h
    rw [readCount.eq_def] at h
    split at h
    · cases h
    · cases h
    · rename_i ds hne
      obtain ⟨hds, hvalue, hlt⟩ := of_countFrom h
      rw [← hvalue] at hlt ⊢
      have hds' : ds ≠ [] := fun hnil => hne (by rw [hnil])
      exact .digits (Or.inr rfl) hds' hds (hlt hds')
    · rename_i hne _ _
      obtain ⟨hds, hvalue, hlt⟩ := of_countFrom h
      rw [← hvalue] at hlt ⊢
      exact .digits (Or.inl rfl) hne hds (hlt hne)
  · rintro ⟨rfl | rfl, hne, hds, hlt⟩
    · exact readCount_digits hne hds hlt
    · rename_i ds
      rw [List.singleton_append, readCount.eq_3]
      · exact countFrom_digits hds hlt
      · exact hne

theorem digitsValue_of_readCount (hds : AllDigits ds) (h : readCount limit ds = .ok n) :
    digitsValue ds = n ∧ n < limit := by
  obtain ⟨rfl | rfl, -, -, hlt⟩ := readCount_eq_ok_iff.mp h
  · exact ⟨rfl, hlt⟩
  · exact absurd (hds '+' List.mem_cons_self) (by decide)

theorem spellsSign_splitSign (s : List Char) :
    ∃ sign, SpellsSign sign (splitSign s).1 ∧ s = sign ++ (splitSign s).2 := by
  unfold splitSign
  split
  · exact ⟨['-'], .minus, rfl⟩
  · exact ⟨['+'], .plus, rfl⟩
  · exact ⟨[], .none, rfl⟩

theorem SpellsSign.splitSign_append (h : SpellsSign sign negative)
    (hs : ∀ c ∈ s.head?, c ≠ '-' ∧ c ≠ '+') :
    splitSign (sign ++ s) = (negative, s) := by
  cases h with
  | none =>
    cases s with
    | nil => rfl
    | cons c s =>
      obtain ⟨hminus, hplus⟩ := hs c rfl
      exact splitSign.eq_3 (c :: s) (fun _ h => hminus (List.cons.inj h).1) fun _ h =>
        hplus (List.cons.inj h).1
  | plus => rfl
  | minus => rfl

theorem head?_of_allDigits (hne : ds ≠ []) (hds : AllDigits ds) (t : List Char) :
    ∃ c, (ds ++ t).head? = some c ∧ isDigit c = true := by
  obtain ⟨c, ds, rfl⟩ := List.exists_cons_of_ne_nil hne
  exact ⟨c, rfl, hds c List.mem_cons_self⟩

theorem ne_sign_of_isDigit {c : Char} (h : isDigit c = true) : c ≠ '-' ∧ c ≠ '+' := by
  constructor
  · rintro rfl
    exact absurd h (by decide)
  · rintro rfl
    exact absurd h (by decide)

theorem readExponent?_eq_some_iff : readExponent? s = some e ↔ SpellsExponent s e := by
  constructor
  · intro h
    cases s with
    | nil =>
      cases h
      exact .none
    | cons mark s =>
      rw [readExponent?] at h
      split at h
      · rename_i hmark
        obtain ⟨sign, hsign, hs⟩ := spellsSign_splitSign s
        generalize splitSign s = split at *
        obtain ⟨negative, ds⟩ := split
        subst hs
        dsimp only at h hsign
        split at h
        · cases h
        · rename_i hdigits
          rw [Bool.or_eq_true, not_or] at hdigits
          obtain rfl := Option.some.inj h
          refine .some hmark hsign (by simpa using hdigits.1) ?_
          simpa [AllDigits] using hdigits.2
      · cases h
  · rintro (_ | ⟨hmark, hsign, hne, hds⟩)
    · rfl
    · rename_i ds negative
      obtain ⟨c, hc, hdigit⟩ := head?_of_allDigits hne hds []
      have hhead : ∀ c ∈ ds.head?, c ≠ '-' ∧ c ≠ '+' := by
        intro d hd
        rw [List.append_nil] at hc
        rw [hc] at hd
        obtain rfl := Option.some.inj hd
        exact ne_sign_of_isDigit hdigit
      have hall : ds.all isDigit = true := List.all_eq_true.mpr hds
      rw [readExponent?, if_pos hmark, hsign.splitSign_append hhead]
      simp [hne, hall]

theorem SpellsExponent.head? (h : SpellsExponent s e) :
    ∀ c ∈ s.head?, isDigit c = false ∧ c ≠ '.' := by
  cases h with
  | none => simp
  | some hmark =>
    rintro c ⟨⟩
    rcases hmark with rfl | rfl <;> decide

theorem exists_digits (s : List Char) :
    ∃ ds t, s = ds ++ t ∧ AllDigits ds ∧ ∀ c ∈ t.head?, isDigit c = false := by
  refine ⟨s.takeWhile isDigit, s.dropWhile isDigit, List.takeWhile_append_dropWhile.symm,
    fun c => List.mem_takeWhile_imp, ?_⟩
  intro c hc
  have hstop := List.head?_dropWhile_not isDigit s
  rw [Option.mem_def.mp hc] at hstop
  simpa using hstop

theorem readUnsigned?_of_point (hds : AllDigits ds) (hes : AllDigits es)
    (ht : ∀ c ∈ t.head?, isDigit c = false) :
    readUnsigned? negative (ds ++ '.' :: (es ++ t)) = if ds ++ es = [] then none else
      (readExponent? t).map fun e => .ofDecimal negative (digitsValue (ds ++ es))
        (e - es.length) := by
  have hpoint : ∀ c ∈ ('.' :: (es ++ t)).head?, isDigit c = false := by
    rintro c ⟨⟩
    decide
  rw [readUnsigned?, takeWhile_isDigit_append hds hpoint, dropWhile_isDigit_append hds hpoint]
  simp only [takeWhile_isDigit_append hes ht, dropWhile_isDigit_append hes ht]
  simp

theorem readUnsigned?_of_no_point (hds : AllDigits ds)
    (ht : ∀ c ∈ t.head?, isDigit c = false ∧ c ≠ '.') :
    readUnsigned? negative (ds ++ t) = if ds = [] then none else
      (readExponent? t).map fun e => .ofDecimal negative (digitsValue ds) e := by
  have hstop : ∀ c ∈ t.head?, isDigit c = false := fun c hc => (ht c hc).1
  have hno : ∀ r, t ≠ '.' :: r := by
    rintro r rfl
    exact (ht '.' rfl).2 rfl
  rw [readUnsigned?, takeWhile_isDigit_append hds hstop, dropWhile_isDigit_append hds hstop]
  split
  rename_i hplaces
  split at hplaces
  · exact absurd rfl (hno _)
  · obtain ⟨rfl, rfl⟩ := Prod.mk.inj hplaces
    simp

theorem readUnsigned?_eq_some_iff :
    readUnsigned? negative s = some x ↔ SpellsUnsigned negative s x := by
  constructor
  · intro h
    obtain ⟨ds, t, rfl, hds, ht⟩ := exists_digits s
    by_cases hpoint : ∃ r, t = '.' :: r
    · obtain ⟨r, rfl⟩ := hpoint
      obtain ⟨places, ending, rfl, hplaces, hending⟩ := exists_digits r
      rw [readUnsigned?_of_point hds hplaces hending] at h
      split at h
      · cases h
      · rename_i hne
        obtain ⟨e, he, rfl⟩ := Option.map_eq_some_iff.mp h
        exact .point hne hds hplaces (readExponent?_eq_some_iff.mp he)
    · have hstop : ∀ c ∈ t.head?, isDigit c = false ∧ c ≠ '.' := by
        intro c hc
        refine ⟨ht c hc, ?_⟩
        rintro rfl
        exact hpoint (List.head?_eq_some_iff.mp hc)
      rw [readUnsigned?_of_no_point hds hstop] at h
      split at h
      · cases h
      · rename_i hne
        obtain ⟨e, he, rfl⟩ := Option.map_eq_some_iff.mp h
        exact .whole hne hds (readExponent?_eq_some_iff.mp he)
  · rintro (⟨hne, hds, hending⟩ | ⟨hne, hds, hplaces, hending⟩)
    · rw [readUnsigned?_of_no_point hds hending.head?, if_neg hne,
        readExponent?_eq_some_iff.mpr hending, Option.map_some]
    · rw [readUnsigned?_of_point hds hplaces fun c hc => (hending.head? c hc).1, if_neg hne,
        readExponent?_eq_some_iff.mpr hending, Option.map_some]

theorem SpellsUnsigned.head? (h : SpellsUnsigned negative s x) :
    ∃ c, s.head? = some c ∧ c ≠ '-' ∧ c ≠ '+' := by
  rcases h with ⟨hne, hds, -⟩ | ⟨hne, hds, hplaces, -⟩
  · obtain ⟨c, hc, hdigit⟩ := head?_of_allDigits hne hds _
    exact ⟨c, hc, ne_sign_of_isDigit hdigit⟩
  · rename_i ds places ending e
    by_cases hnil : ds = []
    · subst hnil
      exact ⟨'.', rfl, by decide, by decide⟩
    · obtain ⟨c, hc, hdigit⟩ := head?_of_allDigits hnil hds _
      exact ⟨c, hc, ne_sign_of_isDigit hdigit⟩

theorem readUnsigned?_of_word (negative : Bool) {word letters : List Char}
    (hword : word.map lowerAscii = letters) (hletters : ∃ c ∈ letters.head?, 'a' ≤ c ∧ c ≤ 'z') :
    (∃ c, word.head? = some c ∧ c ≠ '-' ∧ c ≠ '+') ∧ readUnsigned? negative word = none := by
  obtain ⟨l, hl, hlow, hhigh⟩ := hletters
  obtain ⟨c, word, rfl⟩ : ∃ c r, word = c :: r := by
    apply List.exists_cons_of_ne_nil
    rintro rfl
    rw [← hword] at hl
    cases hl
  obtain rfl : lowerAscii c = l := by
    rw [← hword] at hl
    exact Option.some.inj hl
  have hother : ∀ d, ¬ ('a' ≤ lowerAscii d ∧ lowerAscii d ≤ 'z') → c ≠ d := by
    rintro d hd rfl
    exact hd ⟨hlow, hhigh⟩
  have hdigit : isDigit c = false := by
    rw [Bool.eq_false_iff]
    intro hc
    rw [isDigit_eq, Char.isDigit, Bool.and_eq_true, decide_eq_true_eq, decide_eq_true_eq] at hc
    have h9 : c.toNat ≤ 57 := hc.2
    have hupper : ¬ ('A' ≤ c ∧ c ≤ 'Z') := by
      rintro ⟨hA, -⟩
      have hA : 65 ≤ c.toNat := hA
      omega
    rw [lowerAscii, if_neg hupper] at hlow
    have hlow : 97 ≤ c.toNat := hlow
    omega
  refine ⟨⟨c, rfl, hother '-' (by decide), hother '+' (by decide)⟩, ?_⟩
  have hstop : ∀ d ∈ (c :: word).head?, isDigit d = false ∧ d ≠ '.' := by
    rintro d ⟨⟩
    exact ⟨hdigit, hother '.' (by decide)⟩
  exact readUnsigned?_of_no_point (show AllDigits [] by simp [AllDigits]) hstop

theorem readReal_of_signed (hsign : SpellsSign sign negative)
    (hs : ∃ c, s.head? = some c ∧ c ≠ '-' ∧ c ≠ '+') :
    readReal (sign ++ s) = match readUnsigned? negative s with
      | some x => .ok x
      | none =>
        if String.ofList (s.map lowerAscii) == "inf" ||
        String.ofList (s.map lowerAscii) == "infinity" then
          .ok (.infinity negative)
        else if String.ofList (s.map lowerAscii) == "nan" then .ok .nan
        else .error .invalid := by
  obtain ⟨c, hc, hminus, hplus⟩ := hs
  have hhead : ∀ d ∈ s.head?, d ≠ '-' ∧ d ≠ '+' := by
    intro d hd
    rw [hc] at hd
    obtain rfl := Option.some.inj hd
    exact ⟨hminus, hplus⟩
  have hne : (sign ++ s).isEmpty = false := by
    cases s with
    | nil => cases hc
    | cons c s => simp
  rw [readReal, hne, hsign.splitSign_append hhead]
  rfl

theorem readReal_eq_ok_iff : readReal s = .ok x ↔ SpellsReal s x := by
  constructor
  · intro h
    obtain ⟨sign, hsign, hs⟩ := spellsSign_splitSign s
    rw [readReal] at h
    split at h
    · cases h
    · generalize splitSign s = split at *
      obtain ⟨negative, r⟩ := split
      subst hs
      dsimp only at h hsign
      split at h
      · rename_i y hread
        obtain rfl := Except.ok.inj h
        exact .number hsign (readUnsigned?_eq_some_iff.mp hread)
      · split at h
        · rename_i hword
          obtain rfl := Except.ok.inj h
          refine .infinity hsign ?_
          simpa [← String.toList_inj] using hword
        · split at h
          · rename_i hword
            obtain rfl := Except.ok.inj h
            refine .nan hsign ?_
            simpa [← String.toList_inj] using hword
          · cases h
  · rintro (⟨hsign, hs⟩ | ⟨hsign, hword⟩ | ⟨hsign, hword⟩)
    · rw [readReal_of_signed hsign hs.head?, readUnsigned?_eq_some_iff.mpr hs]
    · rename_i sign word negative
      rcases hword with hword | hword
      · obtain ⟨hhead, hnone⟩ :=
          readUnsigned?_of_word negative hword ⟨'i', rfl, by decide, by decide⟩
        rw [readReal_of_signed hsign hhead, hnone, hword]
        rfl
      · obtain ⟨hhead, hnone⟩ :=
          readUnsigned?_of_word negative hword ⟨'i', rfl, by decide, by decide⟩
        rw [readReal_of_signed hsign hhead, hnone, hword]
        rfl
    · rename_i sign word negative
      obtain ⟨hhead, hnone⟩ := readUnsigned?_of_word negative hword ⟨'n', rfl, by decide, by decide⟩
      rw [readReal_of_signed hsign hhead, hnone, hword]
      rfl

end NoiseTimeline
