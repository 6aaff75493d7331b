import NoiseTimeline.Proofs.Chart.Grouping
import NoiseTimeline.Proofs.Number.Spelling
import NoiseTimeline.Proofs.Text.LowerCase

/-! Which threshold a name shows, and which names stand together. Tags without a number below the
limit are passed over, and the names of one threshold stand as they were given. -/

namespace NoiseTimeline

/-- After `before` stand the tag, the digits of the threshold and an underscore. -/
inductive ShowsThreshold : List Char → List Char → Nat → Prop
  | tagged {before digits after : List Char} (hne : digits ≠ []) (hdigits : AllDigits digits)
      (hlt : digitsValue digits < halfWordLimit) :
      ShowsThreshold before (before ++ (thresholdTag ++ (digits ++ '_' :: after)))
        (digitsValue digits)

/-- No threshold is shown any earlier. -/
def IsFirstThreshold (s : List Char) (t : Nat) : Prop :=
  ∃ before, ShowsThreshold before s t ∧ ∀ before' t', ShowsThreshold before' s t' →
    before.length ≤ before'.length

variable {before rest s : List Char} {c : Char} {t : Nat}

theorem thresholdAfterTag?_eq_some_iff : thresholdAfterTag? rest = some t ↔ ∃ digits after,
    rest = digits ++ '_' :: after ∧ digits ≠ [] ∧ AllDigits digits ∧ digitsValue digits = t ∧
    t < halfWordLimit := by
  constructor
  · intro h
    rw [thresholdAfterTag?] at h
    split at h
    · cases h
    · rename_i hform
      rw [Bool.or_eq_true, not_or, Bool.not_eq_true, List.isEmpty_eq_false_iff, bne_iff_ne, ne_eq,
        not_not] at hform
      obtain ⟨hne, hmark⟩ := hform
      obtain ⟨after, hafter⟩ := List.head?_eq_some_iff.mp hmark
      have hdigits : AllDigits (rest.takeWhile isDigit) := fun c => List.mem_takeWhile_imp
      refine ⟨rest.takeWhile isDigit, after, ?_, hne, ?_⟩
      · rw [← hafter, List.takeWhile_append_dropWhile]
      · cases hread : readCount halfWordLimit (rest.takeWhile isDigit) with
        | error e =>
          rw [hread] at h
          cases h
        | ok n =>
          rw [hread] at h
          obtain rfl : n = t := Option.some.inj h
          exact ⟨hdigits, digitsValue_of_readCount hdigits hread⟩
  · rintro ⟨digits, after, rfl, hne, hdigits, rfl, hlt⟩
    have hstop : ∀ c ∈ ('_' :: after).head?, isDigit c = false := by
      rintro c ⟨⟩
      decide
    rw [thresholdAfterTag?, takeWhile_isDigit_append hdigits hstop,
      dropWhile_isDigit_append hdigits hstop]
    have hread : readCount halfWordLimit digits = .ok (digitsValue digits) :=
      readCount_digits hne hdigits hlt
    simp [hne, hread, Except.toOption]

theorem showsThreshold_iff : ShowsThreshold before s t ↔
    ∃ rest, s = before ++ (thresholdTag ++ rest) ∧ thresholdAfterTag? rest = some t := by
  constructor
  · rintro ⟨hne, hdigits, hlt⟩
    exact ⟨_, rfl, thresholdAfterTag?_eq_some_iff.mpr ⟨_, _, rfl, hne, hdigits, rfl, hlt⟩⟩
  · rintro ⟨rest, rfl, h⟩
    obtain ⟨digits, after, rfl, hne, hdigits, rfl, hlt⟩ := thresholdAfterTag?_eq_some_iff.mp h
    exact .tagged hne hdigits hlt

theorem thresholdTag_eq : thresholdTag = 't' :: "hreshold_".toList := by decide

/-- The tag does not overlap itself, so what follows one can be searched by itself. -/
theorem eq_nil_or_exists_of_tag (h : thresholdTag ++ s = before ++ (thresholdTag ++ rest)) :
    before = [] ∨ ∃ before', before = thresholdTag ++ before' := by
  rcases List.append_eq_append_iff.mp h with ⟨b, hb, -⟩ | ⟨b, hb, hrest⟩
  · exact Or.inr ⟨b, hb⟩
  · cases before with
    | nil => exact Or.inl rfl
    | cons c before =>
      cases b with
      | nil => exact Or.inr ⟨[], by rw [hb, List.append_nil, List.append_nil]⟩
      | cons d b =>
        rw [thresholdTag_eq] at hb hrest
        obtain ⟨-, hb⟩ := List.cons.inj hb
        obtain ⟨rfl, -⟩ := List.cons.inj hrest
        have hmem : 't' ∈ "hreshold_".toList := hb ▸ List.mem_append_right before List.mem_cons_self
        exact absurd hmem (by decide)

/-- What the search finds in a text. -/
def Finds (s : List Char) : Option Nat → Prop
  | some t => IsFirstThreshold s t
  | none => ∀ before t, ¬ ShowsThreshold before s t

theorem Finds.of_rest (lead : List Char) {found : Option Nat} (h : Finds rest found)
    (hshows : ∀ before t, ShowsThreshold before s t ↔
      ∃ before', before = lead ++ before' ∧ ShowsThreshold before' rest t) :
    Finds s found := by
  cases found with
  | none =>
    intro before t hs
    obtain ⟨before', -, hrest⟩ := (hshows before t).mp hs
    exact h before' t hrest
  | some t =>
    obtain ⟨before, hbefore, hfirst⟩ := h
    refine ⟨lead ++ before, (hshows _ t).mpr ⟨before, rfl, hbefore⟩, ?_⟩
    intro before' t' h'
    obtain ⟨before'', rfl, hrest⟩ := (hshows before' t').mp h'
    have hle := hfirst before'' t' hrest
    rw [List.length_append, List.length_append]
    omega

theorem finds_threshold (s : List Char) :
    Finds s ((Text.afterEach thresholdTag 0 s).findSome? thresholdAfterTag?) := by
  by_cases hpre : thresholdTag <+: s
  · obtain ⟨rest, rfl⟩ := hpre
    have hafter : Text.afterEach thresholdTag 0 (thresholdTag ++ rest) =
        rest :: Text.afterEach thresholdTag 0 rest := by
      rw [thresholdTag_eq]
      exact Text.afterEach_of_prefix
    rw [hafter, List.findSome?_cons]
    cases hread : thresholdAfterTag? rest with
    | some t => exact ⟨[], showsThreshold_iff.mpr ⟨rest, rfl, hread⟩, fun _ _ _ => Nat.zero_le _⟩
    | none =>
      refine (finds_threshold rest).of_rest thresholdTag fun before t => ?_
      constructor
      · intro h
        obtain ⟨rest', htag, hread'⟩ := showsThreshold_iff.mp h
        rcases eq_nil_or_exists_of_tag htag with rfl | ⟨before', rfl⟩
        · rw [List.nil_append, List.append_cancel_left_eq] at htag
          rw [← htag, hread] at hread'
          cases hread'
        · rw [List.append_assoc, List.append_cancel_left_eq] at htag
          exact ⟨before', rfl, showsThreshold_iff.mpr ⟨rest', htag, hread'⟩⟩
      · rintro ⟨before', rfl, h⟩
        obtain ⟨rest', rfl, hread'⟩ := showsThreshold_iff.mp h
        exact showsThreshold_iff.mpr ⟨rest', (List.append_assoc _ _ _).symm, hread'⟩
  · cases s with
    | nil =>
      intro before t h
      obtain ⟨rest, hnil, -⟩ := showsThreshold_iff.mp h
      obtain ⟨-, htag⟩ := List.append_eq_nil_iff.mp hnil.symm
      cases htag
    | cons c s =>
      rw [Text.afterEach_cons_of_not_prefix hpre]
      refine (finds_threshold s).of_rest [c] fun before t => ?_
      constructor
      · intro h
        obtain ⟨rest, hs, hread⟩ := showsThreshold_iff.mp h
        cases before with
        | nil => exact absurd ⟨rest, hs.symm⟩ hpre
        | cons d before =>
          obtain ⟨rfl, rfl⟩ := List.cons.inj hs
          exact ⟨before, rfl, showsThreshold_iff.mpr ⟨rest, rfl, hread⟩⟩
      · rintro ⟨before', rfl, h⟩
        obtain ⟨rest, rfl, hread⟩ := showsThreshold_iff.mp h
        exact showsThreshold_iff.mpr ⟨rest, rfl, hread⟩
termination_by s.length
decreasing_by
  · subst_vars
    have hpos : 0 < thresholdTag.length := by decide
    rw [List.length_append]
    omega
  · exact Nat.lt_succ_self _

theorem IsFirstThreshold.unique {t t' : Nat} (h : IsFirstThreshold s t)
    (h' : IsFirstThreshold s t') : t = t' := by
  obtain ⟨before, hshown, hfirst⟩ := h
  obtain ⟨before', hshown', hfirst'⟩ := h'
  have hlength : before.length = before'.length :=
    Nat.le_antisymm (hfirst _ _ hshown') (hfirst' _ _ hshown)
  obtain ⟨rest, rfl, hread⟩ := showsThreshold_iff.mp hshown
  obtain ⟨rest', hsame, hread'⟩ := showsThreshold_iff.mp hshown'
  obtain ⟨-, hrest⟩ := List.append_inj hsame hlength
  rw [List.append_cancel_left_eq] at hrest
  rw [hrest, hread'] at hread
  exact (Option.some.inj hread).symm

theorem threshold?_eq_some_iff {name : String} :
    threshold? name = some t ↔ IsFirstThreshold name.toList t := by
  have hfinds := finds_threshold name.toList
  rw [← threshold?] at hfinds
  constructor
  · intro h
    rwa [h] at hfinds
  · intro h
    cases hfound : threshold? name with
    | none =>
      rw [hfound] at hfinds
      obtain ⟨before, hshown, -⟩ := h
      exact absurd hshown (hfinds before t)
    | some t' =>
      rw [hfound] at hfinds
      rw [hfinds.unique h]

theorem NoiseProperty.isMentionedIn_iff (p : NoiseProperty)
    (endsWord : List Char → List Char → Bool) (name : String) :
    p.isMentionedIn name = true ↔ p.token.toList <:+: Text.lowerCase endsWord name.toList := by
  have hword : Text.IsAsciiWord p.token.toList := by
    cases p <;> exact ⟨by decide, by decide, by decide⟩
  have hne : p.token.toList ≠ [] := by cases p <;> decide
  rw [Text.infix_lowerCase_iff hword hne, isMentionedIn, Text.contains_iff_infix]

/-- Of each threshold the entries are the names that mention the noise, as often as they are given
and in their order, and the thresholds ascend. -/
structure IsGroup (endsWord : List Char → List Char → Bool) (p : NoiseProperty)
    (names : List String) (entries : List (Nat × String)) : Prop where
  ascending : entries.Pairwise fun e e' => e.1 ≤ e'.1
  members : ∀ t, (entries.filter fun e => e.1 = t).map Prod.snd =
    names.filter fun name => p.token.toList <:+: Text.lowerCase endsWord name.toList ∧
    threshold? name = some t

variable {p : NoiseProperty} {names names' : List String} {entries entries' : List (Nat × String)}

theorem mem_groupByThreshold :
    (p, entries) ∈ groupByThreshold names ↔ entries = namesByThreshold p names := by
  have hall : p ∈ NoiseProperty.all := by cases p <;> decide
  rw [groupByThreshold, List.mem_map]
  constructor
  · rintro ⟨q, -, heq⟩
    obtain ⟨rfl, rfl⟩ := Prod.mk.inj heq
    rfl
  · rintro rfl
    exact ⟨p, hall, rfl⟩

theorem filter_thresholds (t : Nat) (names : List String) :
    ((names.filterMap fun name => (threshold? name).map (·, name)).filter fun e => e.1 = t).map
      Prod.snd =
      names.filter fun name => threshold? name = some t := by
  induction names with
  | nil => rfl
  | cons name names ih =>
    rw [List.filterMap_cons, List.filter_cons]
    cases hshown : threshold? name with
    | none => simpa using ih
    | some t' =>
      by_cases ht : t' = t
      · simpa [ht] using ih
      · simpa [ht] using ih

theorem isGroup_namesByThreshold (endsWord : List Char → List Char → Bool) (p : NoiseProperty)
    (names : List String) :
    IsGroup endsWord p names (namesByThreshold p names) := by
  refine ⟨mergeSort_key_ascending Prod.fst _, fun t => ?_⟩
  rw [namesByThreshold, filter_mergeSort_key Prod.fst, filter_thresholds, List.filter_filter]
  refine List.filter_congr fun name _ => ?_
  rw [Bool.eq_iff_iff, Bool.and_eq_true, p.isMentionedIn_iff endsWord, decide_eq_true_eq,
    decide_eq_true_eq, and_comm]

theorem namesByThreshold_skip {name : String} (h : threshold? name = none) (p : NoiseProperty)
    (before after : List String) :
    namesByThreshold p (before ++ name :: after) = namesByThreshold p (before ++ after) := by
  have hname : ([name].filter p.isMentionedIn).filterMap
      (fun name => (threshold? name).map (·, name)) = [] := by
    rw [List.filter_cons]
    split <;> simp [h]
  rw [namesByThreshold, namesByThreshold, List.append_cons, List.filter_append, List.filter_append,
    List.filterMap_append, List.filterMap_append, hname, List.append_nil, ← List.filterMap_append,
    ← List.filter_append]

theorem namesByThreshold_perm (h : names.Perm names') (p : NoiseProperty) :
    (namesByThreshold p names).map Prod.fst = (namesByThreshold p names').map Prod.fst ∧
    ∀ t, ((namesByThreshold p names).filter fun e => e.1 = t).Perm
      ((namesByThreshold p names').filter fun e => e.1 = t) := by
  have hperm : (namesByThreshold p names).Perm (namesByThreshold p names') :=
    (List.mergeSort_perm _ _).trans
      (((h.filter _).filterMap _).trans (List.mergeSort_perm _ _).symm)
  have hsorted : ∀ names, ((namesByThreshold p names).map Prod.fst).Pairwise (· ≤ ·) :=
    fun names => List.pairwise_map.mpr (mergeSort_key_ascending Prod.fst _)
  refine ⟨?_, fun t => hperm.filter _⟩
  exact (hperm.map Prod.fst).eq_of_pairwise (fun _ _ _ _ => Nat.le_antisymm) (hsorted names)
    (hsorted names')

/-- A name has the threshold at its leftmost tag that is followed by a number below the limit and an
underscore. The names that mention a kind of noise in any case of letters stand by threshold, each
as often as it is given and those of one threshold in their order. Names without a threshold make no
difference, and the order of the names none but within a threshold. -/
theorem names_grouped_by_first_threshold (endsWord : List Char → List Char → Bool)
    (names : List String) :
    (∀ name t, threshold? name = some t ↔ IsFirstThreshold name.toList t) ∧
    (groupByThreshold names).map Prod.fst = NoiseProperty.all ∧
    (∀ p entries, (p, entries) ∈ groupByThreshold names → IsGroup endsWord p names entries) ∧
    (∀ name ∈ names, ∀ t, threshold? name = some t →
      (∀ p : NoiseProperty, p.token.toList <:+: Text.lowerCase endsWord name.toList) →
      ∀ p entries, (p, entries) ∈ groupByThreshold names → (t, name) ∈ entries) ∧
    (∀ before name after, names = before ++ name :: after → threshold? name = none →
      groupByThreshold names = groupByThreshold (before ++ after)) ∧
    ∀ names', names.Perm names' → ∀ p entries entries', (p, entries) ∈ groupByThreshold names →
      (p, entries') ∈ groupByThreshold names' → entries.map Prod.fst = entries'.map Prod.fst ∧
        ∀ t, (entries.filter fun e => e.1 = t).Perm (entries'.filter fun e => e.1 = t) := by
  refine ⟨fun name t => threshold?_eq_some_iff, ?_, ?_, ?_, ?_, ?_⟩
  · rw [groupByThreshold, List.map_map]
    exact List.map_id _
  · intro p entries h
    rw [mem_groupByThreshold.mp h]
    exact isGroup_namesByThreshold endsWord p names
  · intro name hname t hshown hmentioned p entries h
    rw [mem_groupByThreshold.mp h]
    exact mem_namesByThreshold.mpr
      ⟨hname, (p.isMentionedIn_iff endsWord name).mpr (hmentioned p), hshown⟩
  · rintro before name after rfl hnone
    refine List.map_congr_left fun p _ => ?_
    rw [namesByThreshold_skip hnone]
  · intro names' hperm p entries entries' h h'
    rw [mem_groupByThreshold.mp h, mem_groupByThreshold.mp h']
    exact namesByThreshold_perm hperm p

/-- A number past the limit is passed over, both kinds of noise are mentioned, and the name between
has no threshold. -/
theorem seventh_in_both_groups :
    threshold? "İRESISTIVE_inDUctive_threshold_4294967296_threshold_007_" = some 7 ∧
    IsFirstThreshold "İRESISTIVE_inDUctive_threshold_4294967296_threshold_007_".toList 7 ∧
    (∀ p entries, (p, entries) ∈
      groupByThreshold ["İRESISTIVE_inDUctive_threshold_4294967296_threshold_007_",
        "resistive_threshold_7", "Resistive_threshold_7_"] →
        (7, "İRESISTIVE_inDUctive_threshold_4294967296_threshold_007_") ∈ entries) ∧
    groupByThreshold ["İRESISTIVE_inDUctive_threshold_4294967296_threshold_007_",
      "resistive_threshold_7", "Resistive_threshold_7_"] =
      groupByThreshold ["İRESISTIVE_inDUctive_threshold_4294967296_threshold_007_",
        "Resistive_threshold_7_"] := by
  have hshown : threshold? "İRESISTIVE_inDUctive_threshold_4294967296_threshold_007_" = some 7 := by
    decide +kernel
  have hnone : threshold? "resistive_threshold_7" = none := by decide +kernel
  have hmentioned : ∀ p : NoiseProperty, p.token.toList <:+: Text.lowerCase (fun _ _ => true)
      "İRESISTIVE_inDUctive_threshold_4294967296_threshold_007_".toList := by
    intro p
    cases p <;> decide +kernel
  obtain ⟨hfirst, -, -, hboth, hskip, -⟩ := names_grouped_by_first_threshold (fun _ _ => true)
    ["İRESISTIVE_inDUctive_threshold_4294967296_threshold_007_", "resistive_threshold_7",
      "Resistive_threshold_7_"]
  exact ⟨hshown, (hfirst _ 7).mp hshown, hboth _ List.mem_cons_self 7 hshown hmentioned,
    hskip [_] _ [_] rfl hnone⟩

end NoiseTimeline
