import NoiseTimeline.Proofs.Text.Layout
import NoiseTimeline.Proofs.Text.Search
import NoiseTimeline.Proofs.TimelineCsv
import NoiseTimeline.Trace

/-! The lines of a trace, told by what stands in them. A header or a value is recognized
in whatever way it is printed, and each line that holds neither is noise. -/

namespace NoiseTimeline.Trace

open Text

variable {l : List Char}

/-- What may stand in front of the word `Property`. -/
def IsLead : List Char → Prop
  | [] => True
  | c :: gap => c = '+' ∧ AllBlank gap

instance : (lead : List Char) → Decidable (IsLead lead)
  | [] => inferInstanceAs (Decidable True)
  | c :: gap => inferInstanceAs (Decidable (c = '+' ∧ AllBlank gap))

/-- Up to blanks, the line has the word `Property` and a space and something more than double quotes
after them. -/
def NamesProperty (l : List Char) : Prop :=
  ∃ lead rest, IsLead lead ∧ trim l = lead ++ ("Property ".toList ++ rest) ∧
    ∃ c ∈ trim rest, c ≠ '"'

def valueWord (estimated : Bool) : List Char :=
  if estimated then "Estimated probability:".toList else "Probability:".toList

/-- Up to blanks, the line starts with a word for the probability and has a value after it. -/
def HoldsValue (l : List Char) : Prop :=
  ∃ estimated rest, trim l = valueWord estimated ++ rest ∧ ¬ AllBlank rest

def IsNoise (l : List Char) : Prop := ¬ NamesProperty l ∧ ¬ HoldsValue l

/-- A way to print the header of a result. -/
structure HeaderStyle where
  indent : List Char := []
  lead : List Char := []
  stem : List Char
  quoted : Bool := false
  trail : List Char := []
  printable : AllBlank indent ∧ IsLead lead ∧
    stem.head?.all (fun c => c != '"' && !isBlank c) = true ∧
    stem.getLast?.all (fun c => !isDigit c) = true ∧ AllBlank trail := by decide

namespace HeaderStyle

def name (h : HeaderStyle) (n : Nat) : List Char := h.stem ++ Decimal.digitTexts n

def label (h : HeaderStyle) (n : Nat) : List Char :=
  if h.quoted then '"' :: (h.name n ++ ['"']) else h.name n

def line (h : HeaderStyle) (n : Nat) : List Char :=
  h.indent ++ ((h.lead ++ ("Property ".toList ++ h.label n)) ++ h.trail)

end HeaderStyle

/-- A way to print a value. What follows it starts with a blank. -/
structure ValueStyle where
  indent : List Char := []
  estimated : Bool := false
  remark : List Char := []
  printable : AllBlank indent ∧ remark.head?.all isBlank = true := by decide

def ValueStyle.line (v : ValueStyle) (p : Binary64) : List Char :=
  v.indent ++ (valueWord v.estimated ++ ' ' :: (p.text ++ v.remark))

theorem isBlank_of_mem_head?_property (rest : List Char) :
    ∀ c ∈ ("Property ".toList ++ rest).head?, isBlank c = false := by
  rintro c ⟨⟩
  decide

/-- What stands in front of the word does not matter, and of the name the double quotes at its ends
do not. -/
theorem headerName?_of_isLead {lead : List Char} (h : IsLead lead) (rest : List Char) :
    headerName? (lead ++ ("Property ".toList ++ rest)) =
      if (unquoted (trim rest)).isEmpty then none else some (unquoted (trim rest)) := by
  have hbody : ∃ gap, AllBlank gap ∧ (dropPrefix? ['+'] (lead ++ ("Property ".toList ++ rest))).getD
      (lead ++ ("Property ".toList ++ rest)) = gap ++ ("Property ".toList ++ rest) := by
    cases lead with
    | nil =>
      have hnone : dropPrefix? ['+'] ("Property ".toList ++ rest) = none :=
        dropPrefix?_eq_none (not_prefix_cons (by decide))
      exact ⟨[], by decide, by rw [List.nil_append, hnone, Option.getD_none]⟩
    | cons c gap =>
      obtain ⟨rfl, hgap⟩ := h
      have hsome : dropPrefix? ['+'] ('+' :: gap ++ ("Property ".toList ++ rest)) =
          some (gap ++ ("Property ".toList ++ rest)) := dropPrefix?_append ['+'] _
      exact ⟨gap, hgap, by rw [hsome, Option.getD_some]⟩
  obtain ⟨gap, hgap, hbody⟩ := hbody
  rw [headerName?, hbody, trimLeft_append_of_allBlank hgap,
    trimLeft_eq (isBlank_of_mem_head?_property rest), dropPrefix?_append]

theorem headerName?_valueWord (estimated : Bool) (rest : List Char) :
    headerName? (valueWord estimated ++ rest) = none := by
  have hplus : ¬ ['+'] <+: valueWord estimated ++ rest := by
    refine not_prefix_append ?_ ?_ rest <;> (cases estimated <;> decide)
  have hproperty : ¬ "Property ".toList <+: valueWord estimated ++ rest := by
    refine not_prefix_append ?_ ?_ rest <;> (cases estimated <;> decide)
  have hleft : trimLeft (valueWord estimated ++ rest) = valueWord estimated ++ rest := by
    apply trimLeft_eq
    cases estimated <;> (rintro c ⟨⟩; decide)
  rw [headerName?, dropPrefix?_eq_none hplus, Option.getD_none, hleft,
    dropPrefix?_eq_none hproperty]

theorem valueText?_valueWord (estimated : Bool) (rest : List Char) :
    valueText? (valueWord estimated ++ rest) = firstWord? rest := by
  unfold valueText? valueWord
  cases estimated with
  | true => simp only [if_true, dropPrefix?_append, Option.bind_some]
  | false =>
    have hnone : dropPrefix? "Estimated probability:".toList
        ("Probability:".toList ++ rest) = none :=
      dropPrefix?_eq_none (not_prefix_cons (by decide))
    simp only [Bool.false_eq_true, if_false, hnone, dropPrefix?_append, Option.bind_some]

theorem unquoted_eq_nil_iff {s : List Char} : unquoted s = [] ↔ ∀ c ∈ s, c = '"' := by
  have hfirst := List.head?_dropWhile_not (fun c => decide (c = '"')) s
  rw [unquoted, List.reverse_eq_nil_iff, List.dropWhile_eq_nil_iff]
  cases hdrop : s.dropWhile (· = '"') with
  | nil => simpa using List.dropWhile_eq_nil_iff.mp hdrop
  | cons c r =>
    rw [hdrop] at hfirst
    have hc : c ∈ s := (List.dropWhile_suffix _).subset (hdrop ▸ List.mem_cons_self)
    have hne : c ≠ '"' := by simpa using hfirst
    constructor
    · intro h
      exact absurd (by simpa using h c (by simp)) hne
    · intro h
      exact absurd (h c hc) hne

theorem exists_lead (l : List Char) : ∃ lead, IsLead lead ∧
    trim l = lead ++ trimLeft ((dropPrefix? ['+'] (trim l)).getD (trim l)) := by
  cases hplus : dropPrefix? ['+'] (trim l) with
  | none => exact ⟨[], trivial, (trimLeft_eq fun _ hc => isBlank_of_mem_head?_trim hc).symm⟩
  | some body =>
    have hblank : AllBlank (body.takeWhile isBlank) := fun c hc => List.mem_takeWhile_imp hc
    have hbody : body = body.takeWhile isBlank ++ trimLeft body :=
      List.takeWhile_append_dropWhile.symm
    refine ⟨'+' :: body.takeWhile isBlank, ⟨rfl, hblank⟩, ?_⟩
    rw [Option.getD_some, List.cons_append, ← hbody]
    exact eq_append_of_dropPrefix? hplus

theorem isSome_headerName?_iff : (headerName? (trim l)).isSome = true ↔ NamesProperty l := by
  constructor
  · intro h
    obtain ⟨lead, hlead, htrim⟩ := exists_lead l
    rw [headerName?] at h
    split at h
    · cases h
    · rename_i rest hrest
      rw [eq_append_of_dropPrefix? hrest] at htrim
      refine ⟨lead, rest, hlead, htrim, ?_⟩
      by_contra hquotes
      have hnil : unquoted (trim rest) = [] := unquoted_eq_nil_iff.mpr (by simpa using hquotes)
      rw [hnil] at h
      cases h
  · rintro ⟨lead, rest, hlead, htrim, c, hc, hne⟩
    have hname : unquoted (trim rest) ≠ [] := fun hnil => hne (unquoted_eq_nil_iff.mp hnil c hc)
    rw [htrim, headerName?_of_isLead hlead, if_neg (by simpa using hname)]
    rfl

theorem isSome_valueText?_iff : (valueText? (trim l)).isSome = true ↔ HoldsValue l := by
  constructor
  · intro h
    obtain ⟨text, htext⟩ := Option.isSome_iff_exists.mp h
    rw [valueText?] at htext
    cases hlong : dropPrefix? "Estimated probability:".toList (trim l) with
    | some rest =>
      simp only [hlong, Option.bind_some] at htext
      exact ⟨true, rest, eq_append_of_dropPrefix? hlong,
        isSome_firstWord?_iff.mp (by rw [htext]; rfl)⟩
    | none =>
      simp only [hlong] at htext
      obtain ⟨rest, hshort, hword⟩ := Option.bind_eq_some_iff.mp htext
      exact ⟨false, rest, eq_append_of_dropPrefix? hshort,
        isSome_firstWord?_iff.mp (by rw [hword]; rfl)⟩
  · rintro ⟨estimated, rest, htrim, hrest⟩
    rw [htrim, valueText?_valueWord]
    exact isSome_firstWord?_iff.mpr hrest

theorem ofLine_eq_noise_iff : LineKind.ofLine l = .noise ↔ IsNoise l := by
  rw [IsNoise, ← isSome_headerName?_iff, ← isSome_valueText?_iff, LineKind.ofLine]
  cases headerName? (trim l) with
  | some name => simp
  | none =>
    cases valueText? (trim l) with
    | some text => simp
    | none => simp

instance : Decidable (IsNoise l) := decidable_of_iff _ ofLine_eq_noise_iff

theorem cycleSuffix?_append {name : List Char} {n : Nat}
    (hname : ∀ c ∈ name.getLast?, isDigit c = false) (hn : n < wordLimit) :
    cycleSuffix? (name ++ Decimal.digitTexts n) = some n := by
  have hdigits : ∀ c ∈ (Decimal.digitTexts n).reverse, isDigit c = true :=
    fun c hc => Decimal.isDigit_of_mem_digitTexts (List.mem_reverse.mp hc)
  have hstop : ∀ c ∈ name.reverse.head?, isDigit c = false := by
    rw [List.head?_reverse]
    exact hname
  rw [cycleSuffix?, List.reverse_append, takeWhile_isDigit_append hdigits hstop,
    List.reverse_reverse]
  simp only [readCount_digitTexts hn]
  rfl

theorem dropWhile_quote {s : List Char} (h : ∀ c ∈ s.head?, c ≠ '"') :
    s.dropWhile (· = '"') = s := by
  cases s with
  | nil => rfl
  | cons c s => exact List.dropWhile_cons_of_neg (by simpa using h c rfl)

theorem unquoted_eq {s : List Char} (hhead : ∀ c ∈ s.head?, c ≠ '"')
    (hlast : ∀ c ∈ s.getLast?, c ≠ '"') :
    unquoted s = s := by
  rw [unquoted, dropWhile_quote hhead, dropWhile_quote (by simpa using hlast), List.reverse_reverse]

theorem unquoted_quoted {s : List Char} (hne : s ≠ []) (hhead : ∀ c ∈ s.head?, c ≠ '"')
    (hlast : ∀ c ∈ s.getLast?, c ≠ '"') : unquoted ('"' :: (s ++ ['"'])) = s := by
  have hfirst : ('"' :: (s ++ ['"'])).dropWhile (· = '"') = s ++ ['"'] := by
    obtain ⟨c, r, rfl⟩ := List.exists_cons_of_ne_nil hne
    rw [List.dropWhile_cons_of_pos (by decide)]
    exact dropWhile_quote fun c hc => hhead c (by simpa using hc)
  have hsecond : (s ++ ['"']).reverse.dropWhile (· = '"') = s.reverse := by
    rw [List.reverse_append, List.reverse_singleton, List.singleton_append,
      List.dropWhile_cons_of_pos (by decide)]
    exact dropWhile_quote (by simpa using hlast)
  rw [unquoted, hfirst, hsecond, List.reverse_reverse]

namespace HeaderStyle

variable (h : HeaderStyle) (n : Nat)

theorem isLead_lead : IsLead h.lead := h.printable.2.1

theorem stem_start {c : Char} (hc : c ∈ h.stem.head?) : c ≠ '"' ∧ isBlank c = false := by
  simpa using (Option.all_eq_true _ _).mp h.printable.2.2.1 c hc

theorem stem_end {c : Char} (hc : c ∈ h.stem.getLast?) : isDigit c = false := by
  simpa using (Option.all_eq_true _ _).mp h.printable.2.2.2.1 c hc

theorem name_ne_nil : h.name n ≠ [] := by
  simp [name, Decimal.digitTexts_ne_nil]

theorem isDigit_of_mem_getLast?_name {c : Char} (hc : c ∈ (h.name n).getLast?) :
    isDigit c = true := by
  rw [name, List.getLast?_append_of_ne_nil _ (Decimal.digitTexts_ne_nil n)] at hc
  exact Decimal.isDigit_of_mem_digitTexts (List.mem_of_getLast? hc)

theorem name_start {c : Char} (hc : c ∈ (h.name n).head?) : c ≠ '"' ∧ isBlank c = false := by
  cases hstem : h.stem with
  | nil =>
    rw [name, hstem, List.nil_append] at hc
    have hdigit := Decimal.isDigit_of_mem_digitTexts (List.mem_of_head? hc)
    exact ⟨by rintro rfl; exact absurd hdigit (by decide), isBlank_of_isDigit hdigit⟩
  | cons d stem =>
    rw [name, hstem] at hc
    exact h.stem_start (hstem ▸ hc)

theorem name_end {c : Char} (hc : c ∈ (h.name n).getLast?) : c ≠ '"' ∧ isBlank c = false := by
  have hdigit := h.isDigit_of_mem_getLast?_name n hc
  exact ⟨by rintro rfl; exact absurd hdigit (by decide), isBlank_of_isDigit hdigit⟩

theorem unquoted_label : unquoted (h.label n) = h.name n := by
  rw [label]
  split
  · exact unquoted_quoted (h.name_ne_nil n) (fun _ hc => (h.name_start n hc).1) fun _ hc =>
      (h.name_end n hc).1
  · exact unquoted_eq (fun _ hc => (h.name_start n hc).1) fun _ hc => (h.name_end n hc).1

theorem label_ne_nil : h.label n ≠ [] := by
  intro hnil
  have hname := h.unquoted_label n
  rw [hnil] at hname
  exact h.name_ne_nil n hname.symm

theorem isBlank_of_mem_getLast?_label {c : Char} (hc : c ∈ (h.label n).getLast?) :
    isBlank c = false := by
  rw [label] at hc
  split at hc
  · rw [← List.cons_append, List.getLast?_append_of_ne_nil _ (by simp)] at hc
    obtain rfl : '"' = c := by simpa using hc
    decide
  · exact (h.name_end n hc).2

theorem trim_label : trim (h.label n) = h.label n := by
  refine trim_eq ?_ fun _ hc => h.isBlank_of_mem_getLast?_label n hc
  intro c hc
  rw [label] at hc
  split at hc
  · obtain rfl : '"' = c := by simpa using hc
    decide
  · exact (h.name_start n hc).2

theorem trim_line : trim (h.line n) = h.lead ++ ("Property ".toList ++ h.label n) := by
  rw [line, trim_padded h.printable.1 h.printable.2.2.2.2]
  apply trim_eq
  · intro c hc
    have hlead := h.isLead_lead
    cases heq : h.lead with
    | nil =>
      rw [heq] at hc
      exact isBlank_of_mem_head?_property _ c hc
    | cons d gap =>
      rw [heq] at hc hlead
      obtain rfl : d = c := by simpa using hc
      rw [hlead.1]
      decide
  · intro c hc
    rw [← List.append_assoc, List.getLast?_append_of_ne_nil _ (h.label_ne_nil n)] at hc
    exact h.isBlank_of_mem_getLast?_label n hc

theorem ofLine_line : LineKind.ofLine (h.line n) = .header (h.name n) := by
  have hheader : headerName? (trim (h.line n)) = some (h.name n) := by
    rw [h.trim_line, headerName?_of_isLead h.isLead_lead, h.trim_label, h.unquoted_label, if_neg]
    simpa using h.name_ne_nil n
  rw [LineKind.ofLine]
  simp only [hheader]

theorem ofName?_name {n : Nat} (hn : n < wordLimit) :
    OpenHeader.ofName? (h.name n) = some ⟨h.name n, n⟩ := by
  rw [OpenHeader.ofName?, name, cycleSuffix?_append (fun _ hc => h.stem_end hc) hn]
  rfl

end HeaderStyle

namespace ValueStyle

variable (v : ValueStyle) (p : Binary64)

theorem trim_line : ∃ remark, trim (v.line p) = valueWord v.estimated ++ ' ' :: (p.text ++ remark) ∧
    ∀ c ∈ remark.head?, isBlank c = true := by
  refine ⟨trimRight v.remark, ?_,
    fun c hc => (Option.all_eq_true _ _).mp v.printable.2 c (mem_head?_of_trimRight hc)⟩
  have hhead : ∀ c ∈ (valueWord v.estimated ++ ' ' :: (p.text ++ v.remark)).head?,
      isBlank c = false := by
    unfold valueWord
    split <;> (rintro c ⟨⟩; decide)
  have hlast : ∀ c ∈ (valueWord v.estimated ++ ' ' :: p.text).getLast?, isBlank c = false := by
    intro c hc
    rw [List.append_cons, List.getLast?_append_of_ne_nil _ p.text_ne_nil] at hc
    exact Binary64.isBlank_of_mem_text (List.mem_of_getLast? hc)
  have hright := trimRight_append hlast v.remark
  rw [List.append_assoc, List.cons_append, List.append_assoc, List.cons_append] at hright
  rw [trim, line, trimLeft_append_of_allBlank v.printable.1, trimLeft_eq hhead, hright]

theorem ofLine_line : LineKind.ofLine (v.line p) = .value p.text := by
  obtain ⟨remark, htrim, hremark⟩ := v.trim_line p
  have hvalue : valueText? (trim (v.line p)) = some p.text := by
    rw [htrim, valueText?_valueWord]
    exact firstWord?_append p.text_ne_nil (fun _ hc => Binary64.isBlank_of_mem_text hc) hremark
  rw [LineKind.ofLine]
  simp only [hvalue]
  rw [htrim, headerName?_valueWord]

end ValueStyle

end NoiseTimeline.Trace
