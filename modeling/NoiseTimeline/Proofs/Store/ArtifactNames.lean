import NoiseTimeline.Chart.Catalog
import NoiseTimeline.Proofs.Config
import NoiseTimeline.Proofs.Number.Digits
import NoiseTimeline.Proofs.Store.Path
import NoiseTimeline.Proofs.Text.Lines
import NoiseTimeline.Proofs.Text.Search

/-! What the names of artifacts say. The threshold is read from a timeline's name, and
no other kind of noise is mentioned there. -/

namespace NoiseTimeline

open Decimal (digitTexts)

namespace RunConfig

variable {c : RunConfig}

/-- The artifact stem up to the threshold. -/
def stemFront (c : RunConfig) : List Char :=
  "noc_".toList ++ (digitTexts c.size ++ 'x' ::
    (digitTexts c.size ++ '_' :: (c.property.token.toList ++ "_noise_".toList)))

/-- The artifact stem after the threshold. -/
def stemBack (c : RunConfig) : List Char :=
  "_stride_".toList ++ (digitTexts c.stride ++ ("_block_size_".toList ++ digitTexts c.width))

theorem toList_artifactStem (c : RunConfig) :
    c.artifactStem.toList = c.stemFront ++
      (thresholdTag ++ (digitTexts c.threshold ++ c.stemBack)) := by
  have hx : "x".toList = ['x'] := by decide
  have hbar : "_".toList = ['_'] := by decide
  have htag : "_noise_threshold_".toList = "_noise_".toList ++ thresholdTag := by decide
  unfold artifactStem stemFront stemBack
  simp only [Text.toString_self, String.toList_append]
  rw [Decimal.toList_toString c.size, Decimal.toList_toString c.threshold,
    Decimal.toList_toString c.stride, Decimal.toList_toString c.width, hx, hbar, htag]
  simp only [List.append_assoc, List.cons_append, List.nil_append]

theorem afterEach_stemFront (c : RunConfig) (s : List Char) :
    Text.afterEach thresholdTag 0 (c.stemFront ++ s) = Text.afterEach thresholdTag 0 s := by
  -- The only place before the tag that starts like it is the end of the token, where another
  -- letter follows.
  have htag : thresholdTag = 't' :: 'h' :: "reshold_".toList := by decide
  obtain ⟨kind, hkind, htoken⟩ :
      ∃ kind, 't' ∉ kind ∧ c.property.token.toList = kind ++ 't' :: "ive".toList := by
    cases c.property with
    | irDrop => exact ⟨"resis".toList, by decide, by decide⟩
    | diDt => exact ⟨"induc".toList, by decide, by decide⟩
  have hdigits : ∀ n, 't' ∉ digitTexts n :=
    fun n h => absurd (Decimal.isDigit_of_mem_digitTexts h) (by decide)
  have hbefore : 't' ∉ "noc_".toList ++
      (digitTexts c.size ++ 'x' :: (digitTexts c.size ++ '_' :: kind)) := by
    simp only [List.mem_append, List.mem_cons, not_or]
    exact ⟨by decide, hdigits _, by decide, hdigits _, by decide, hkind⟩
  have hafter : 't' ∉ "ive".toList ++ "_noise_".toList := by decide
  have hfront : c.stemFront ++ s =
      ("noc_".toList ++ (digitTexts c.size ++ 'x' :: (digitTexts c.size ++ '_' :: kind))) ++
        ('t' :: (("ive".toList ++ "_noise_".toList) ++ s)) := by
    unfold stemFront
    rw [htoken]
    simp only [List.append_assoc, List.cons_append]
  have hother : ¬ 't' :: 'h' :: "reshold_".toList <+:
      't' :: (("ive".toList ++ "_noise_".toList) ++ s) := by
    rw [List.cons_prefix_cons, not_and]
    intro _
    exact Text.not_prefix_cons (by decide)
  rw [hfront, htag, Text.afterEach_append hbefore, Text.afterEach_cons_of_not_prefix hother,
    Text.afterEach_append hafter]

theorem threshold?_of_stem {name : String} {ending : List Char}
    (h : name.toList = c.artifactStem.toList ++ ending) (hc : c.threshold < halfWordLimit) :
    threshold? name = some c.threshold := by
  have htag : thresholdTag = 't' :: "hreshold_".toList := by decide
  have hback : c.stemBack ++ ending = '_' :: (c.stemBack ++ ending).tail := rfl
  have hread : thresholdAfterTag? (digitTexts c.threshold ++ (c.stemBack ++ ending)) =
      some c.threshold := by
    have hdigits : ∀ d ∈ digitTexts c.threshold, isDigit d = true :=
      fun d => Decimal.isDigit_of_mem_digitTexts
    have hstop : ∀ d ∈ (c.stemBack ++ ending).head?, isDigit d = false := by
      rintro d ⟨⟩
      decide
    rw [thresholdAfterTag?, takeWhile_isDigit_append hdigits hstop,
      dropWhile_isDigit_append hdigits hstop, hback]
    simp [Decimal.digitTexts_ne_nil, readCount_digitTexts hc, Except.toOption]
  have hfirst : (Text.afterEach thresholdTag 0 name.toList).head? =
      some (digitTexts c.threshold ++ (c.stemBack ++ ending)) := by
    rw [h, toList_artifactStem, List.append_assoc, afterEach_stemFront, List.append_assoc,
      List.append_assoc, htag]
    exact congrArg List.head? Text.afterEach_of_prefix
  rw [threshold?]
  obtain ⟨rest, hrest⟩ := List.head?_eq_some_iff.mp hfirst
  rw [hrest, List.findSome?_cons, hread]

end RunConfig

def isPlain (c : Char) : Bool := isDigit c || ('a' ≤ c && c ≤ 'z') || c == '_' || c == '.'

theorem lowerAscii_of_isPlain {c : Char} (h : isPlain c = true) : lowerAscii c = c := by
  have hupper : ¬ ('A' ≤ c ∧ c ≤ 'Z') := by
    rintro ⟨h1, h2⟩
    have hlow : 65 ≤ c.toNat := h1
    have hhigh : c.toNat ≤ 90 := h2
    simp only [isPlain, isDigit_eq, Char.isDigit, Bool.or_eq_true, Bool.and_eq_true,
      decide_eq_true_eq, beq_iff_eq] at h
    rcases h with ((⟨h3, h4⟩ | ⟨h3, h4⟩) | rfl) | rfl
    · have h5 : c.toNat ≤ 57 := h4
      omega
    · have h5 : 97 ≤ c.toNat := h3
      omega
    · exact absurd hhigh (by decide)
    · exact absurd hlow (by decide)
  rw [lowerAscii, if_neg hupper]

theorem isPlain_of_isDigit {c : Char} (h : isDigit c = true) : isPlain c = true := by
  rw [isPlain, h]
  rfl

theorem Path.isName_of_isPlain {name : String} (hhead : name.toList.head? = some 'n')
    (hplain : ∀ d ∈ name.toList, isPlain d = true) : IsName name := by
  have hne : ∀ other : String, other.toList.head? ≠ some 'n' → name ≠ other := by
    rintro other hother rfl
    exact hother hhead
  exact ⟨hne _ (by decide), hne _ (by decide), hne _ (by decide),
    fun hmem => absurd (hplain _ hmem) (by decide), fun hmem => absurd (hplain _ hmem) (by decide)⟩

namespace RunConfig

variable {c : RunConfig}

theorem isPlain_of_mem_artifactStem {d : Char} (h : d ∈ c.artifactStem.toList) :
    isPlain d = true := by
  have hdigits : ∀ n, d ∈ digitTexts n → isPlain d = true :=
    fun n hd => isPlain_of_isDigit (Decimal.isDigit_of_mem_digitTexts hd)
  have htoken : c.property.token.toList.all isPlain = true := by
    cases c.property <;> decide
  have hwords :
      ("noc_".toList ++
        ("_noise_".toList ++ (thresholdTag ++ ("_stride_".toList ++ "_block_size_".toList)))).all
      isPlain = true := by
    decide
  have hword := List.all_eq_true.mp hwords d
  rw [toList_artifactStem] at h
  unfold stemFront stemBack at h
  simp only [List.mem_append, List.mem_cons] at h hword
  rcases h with (h | h | rfl | h | rfl | h | h) | h | h | h | h | h | h
  · exact hword (Or.inl h)
  · exact hdigits _ h
  · decide
  · exact hdigits _ h
  · decide
  · exact List.all_eq_true.mp htoken d h
  · exact hword (Or.inr (Or.inl h))
  · exact hword (Or.inr (Or.inr (Or.inl h)))
  · exact hdigits _ h
  · exact hword (Or.inr (Or.inr (Or.inr (Or.inl h))))
  · exact hdigits _ h
  · exact hword (Or.inr (Or.inr (Or.inr (Or.inr h))))
  · exact hdigits _ h

theorem head_artifactStem (c : RunConfig) : c.artifactStem.toList.head? = some 'n' := by
  rw [toList_artifactStem]
  rfl

theorem isName_artifactStem_append {ending : String} (h : ending.toList.all isPlain = true) :
    Path.IsName (c.artifactStem ++ ending) := by
  apply Path.isName_of_isPlain
  · rw [String.toList_append, List.head?_append, head_artifactStem]
    rfl
  · intro d hd
    rw [String.toList_append, List.mem_append] at hd
    exact hd.elim isPlain_of_mem_artifactStem (List.all_eq_true.mp h d)

theorem threshold?_csvName (hc : c.threshold < halfWordLimit) :
    threshold? c.csvName = some c.threshold :=
  threshold?_of_stem String.toList_append hc

theorem token_infix_artifactStem (c : RunConfig) :
    c.property.token.toList <:+: c.artifactStem.toList := by
  rw [toList_artifactStem]
  unfold stemFront
  refine ⟨"noc_".toList ++ (digitTexts c.size ++ 'x' :: (digitTexts c.size ++ ['_'])),
    "_noise_".toList ++ (thresholdTag ++ (digitTexts c.threshold ++ c.stemBack)), ?_⟩
  simp only [List.append_assoc, List.cons_append, List.nil_append]

/-- An occurrence of a token lies between two of the numbers in a timeline's name. -/
theorem token_infix_csvName {p : NoiseProperty} (h : p.token.toList <:+: c.csvName.toList) :
    p.token.toList <:+: '_' :: (c.property.token.toList ++ ("_noise_".toList ++ thresholdTag)) := by
  have hdigits : ∀ n, ∀ d ∈ digitTexts n, d ∉ p.token.toList := by
    have htoken : ∀ d ∈ p.token.toList, isDigit d = false := by
      cases p <;> simp [NoiseProperty.token, isDigit_eq]
    intro n d hd hmem
    have hdigit := Decimal.isDigit_of_mem_digitTexts hd
    rw [htoken d hmem] at hdigit
    cases hdigit
  have hname : c.csvName.toList =
      "noc_".toList ++ (digitTexts c.size ++ (['x'] ++ (digitTexts c.size ++
      ('_' :: (c.property.token.toList ++ ("_noise_".toList ++ thresholdTag)) ++
        (digitTexts c.threshold ++
        ("_stride_".toList ++
          (digitTexts c.stride ++ ("_block_size_".toList ++ (digitTexts c.width ++
          ".csv".toList)))))))))  := by
    rw [csvName, String.toList_append, toList_artifactStem]
    unfold stemFront stemBack
    simp only [List.append_assoc, List.cons_append, List.nil_append]
  have hpiece : ∀ word ∈ ["noc_".toList, ['x'], "_stride_".toList, "_block_size_".toList,
      ".csv".toList], ¬ p.token.toList <:+: word := by
    cases p <;> decide
  simp only [List.mem_cons, List.not_mem_nil, or_false, forall_eq_or_imp, forall_eq] at hpiece
  obtain ⟨hfront, hcross, hstride, hblock, hending⟩ := hpiece
  rw [hname] at h
  have hsize :=
    (Text.infix_append_digits (Decimal.digitTexts_ne_nil _) (hdigits _) h).resolve_left hfront
  have hkind :=
    (Text.infix_append_digits (Decimal.digitTexts_ne_nil _) (hdigits _) hsize).resolve_left hcross
  refine (Text.infix_append_digits (Decimal.digitTexts_ne_nil _) (hdigits _) hkind).resolve_right
    fun hthreshold => ?_
  have hrest :=
    (Text.infix_append_digits (Decimal.digitTexts_ne_nil _) (hdigits _) hthreshold).resolve_left
      hstride
  have hlast :=
    (Text.infix_append_digits (Decimal.digitTexts_ne_nil _) (hdigits _) hrest).resolve_left hblock
  exact hending hlast

theorem isMentionedIn_csvName (p : NoiseProperty) :
    p.isMentionedIn c.csvName = true ↔ p = c.property := by
  have hlower : c.csvName.toList.map lowerAscii = c.csvName.toList := by
    have hplain : ".csv".toList.all isPlain = true := by decide
    have hfixed : ∀ d ∈ c.csvName.toList, lowerAscii d = id d := by
      intro d hd
      rw [csvName, String.toList_append, List.mem_append] at hd
      exact lowerAscii_of_isPlain
        (hd.elim isPlain_of_mem_artifactStem (List.all_eq_true.mp hplain d))
    rw [List.map_congr_left hfixed, List.map_id]
  rw [NoiseProperty.isMentionedIn, hlower, Text.contains_iff_infix]
  constructor
  · intro h
    have hinfix := token_infix_csvName h
    revert hinfix
    cases p <;> cases c.property <;> decide
  · rintro rfl
    rw [csvName, String.toList_append]
    exact (token_infix_artifactStem c).trans (List.prefix_append _ _).isInfix

end RunConfig

theorem ending_eq_of_append_eq {a b e f : String} (h : a ++ e = b ++ f)
    (hlength : e.toList.length = f.toList.length) :
    e = f := by
  have hchars : a.toList ++ e.toList = b.toList ++ f.toList := by
    rw [← String.toList_append, ← String.toList_append, h]
  exact String.toList_inj.mp (List.append_inj_right' hchars hlength)

namespace Catalog

theorem isCsvName_iff {name : String} :
    isCsvName name = true ↔ ∃ stem : String, name = stem ++ ".csv" := by
  rw [isCsvName, List.isSuffixOf_iff_suffix]
  constructor
  · rintro ⟨stem, hstem⟩
    refine ⟨String.ofList stem, String.toList_inj.mp ?_⟩
    rw [String.toList_append, String.toList_ofList, hstem]
  · rintro ⟨stem, rfl⟩
    rw [String.toList_append]
    exact List.suffix_append _ _

theorem not_isCsvName_append {name ending : String} (hlength : ending.toList.length = 4)
    (hne : ending ≠ ".csv") :
    isCsvName (name ++ ending) = false := by
  rw [Bool.eq_false_iff, ne_eq, isCsvName_iff]
  rintro ⟨stem, hstem⟩
  exact hne (ending_eq_of_append_eq hstem hlength)

end Catalog

namespace RunConfig

theorem isCsvName_csvName (c : RunConfig) : Catalog.isCsvName c.csvName = true :=
  Catalog.isCsvName_iff.mpr ⟨c.artifactStem, rfl⟩

theorem not_isCsvName_logName (c : RunConfig) : Catalog.isCsvName c.logName = false := by
  have hsplit : c.logName = (c.artifactStem ++ ".time") ++ ".txt" := by
    rw [logName, String.append_assoc]
    rfl
  rw [hsplit]
  exact Catalog.not_isCsvName_append (by decide) (by decide)

theorem csvName_ne_logName (c d : RunConfig) : c.csvName ≠ d.logName := by
  intro h
  have hcsv := c.isCsvName_csvName
  rw [h, not_isCsvName_logName] at hcsv
  cases hcsv

end RunConfig

namespace Artifacts

open RunConfig

theorem not_isCsvName_temporary (name : String) : Catalog.isCsvName (temporary name) = false :=
  Catalog.not_isCsvName_append (by decide) (by decide)

theorem temporary_ne_csvName (name : String) (c : RunConfig) : temporary name ≠ c.csvName := by
  intro h
  have hcsv := c.isCsvName_csvName
  rw [← h, not_isCsvName_temporary] at hcsv
  cases hcsv

theorem temporary_ne_logName (name : String) (c : RunConfig) : temporary name ≠ c.logName := by
  intro h
  have hsplit : name ++ ".tmp" = (c.artifactStem ++ ".time") ++ ".txt" := by
    rw [String.append_assoc]
    exact h
  exact absurd (ending_eq_of_append_eq hsplit (by decide)) (by decide)

theorem temporary_inj {name name' : String}
    (h : temporary name = temporary name') : name = name' := by
  have hchars : name.toList ++ ".tmp".toList = name'.toList ++ ".tmp".toList := by
    rw [← String.toList_append, ← String.toList_append]
    exact congrArg String.toList h
  exact String.toList_inj.mp (List.append_cancel_right hchars)

theorem isName_csvName (c : RunConfig) : Path.IsName c.csvName :=
  isName_artifactStem_append (by decide)

theorem isName_logName (c : RunConfig) : Path.IsName c.logName :=
  isName_artifactStem_append (by decide)

theorem isName_temporary_csvName (c : RunConfig) : Path.IsName (temporary c.csvName) := by
  rw [temporary, csvName, String.append_assoc]
  exact isName_artifactStem_append (by decide)

theorem isName_temporary_logName (c : RunConfig) : Path.IsName (temporary c.logName) := by
  rw [temporary, logName, String.append_assoc]
  exact isName_artifactStem_append (by decide)

end Artifacts

end NoiseTimeline
