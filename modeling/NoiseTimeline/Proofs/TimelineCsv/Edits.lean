import Mathlib.Logic.Relation
import NoiseTimeline.Proofs.Text.Insertion
import NoiseTimeline.Proofs.TimelineCsv.Acceptance
import NoiseTimeline.Proofs.Trace.Grammar

/-! Edits that make no difference to what is read. Line ends may change, blank rows may be put in
after the header, and there may be more blanks around lines and fields. -/

namespace NoiseTimeline.TimelineCsv

/-- Blanks that end no line. -/
def Pads (pad : List Char) : Prop := ∀ c ∈ pad, Text.isBlank c = true ∧ c ≠ '\n'

/-- Something is put into a text that neither its lines nor their fields show. -/
inductive Edit : List Char → List Char → Prop
  | carriageReturn {a b : List Char} : Edit (a ++ '\n' :: b) (a ++ '\r' :: '\n' :: b)
  | blankLine {a pad b : List Char} (hpad : Pads pad) (hb : Text.AfterLine b) :
      Edit (a ++ b) (a ++ '\n' :: (pad ++ b))
  | lineStart {a pad b : List Char} (hpad : Pads pad) (ha : Text.BeforeLine a) :
      Edit (a ++ b) (a ++ (pad ++ b))
  | lineEnd {a pad b : List Char} (hpad : Pads pad) (hb : Text.AfterLine b) :
      Edit (a ++ b) (a ++ (pad ++ b))
  | fields {a cycle pad pad' b : List Char} (hcycle : ',' ∉ cycle) (hpad : Pads pad)
      (hpad' : Pads pad') :
      Edit (a ++ '\n' :: (cycle ++ ',' :: b)) (a ++ '\n' :: (cycle ++ (pad ++ ',' :: (pad' ++ b))))

variable {s s' a b l m pad : List Char} {front back : List (List Char)} {text text' : String}
  {t : Timeline}

theorem Pads.allBlank (h : Pads pad) : Text.AllBlank pad := fun c hc => (h c hc).1

theorem Pads.newline_not_mem (h : Pads pad) : '\n' ∉ pad := fun hmem => (h _ hmem).2 rfl

theorem Pads.comma_not_mem (h : Pads pad) : ',' ∉ pad := fun hmem => absurd (h _ hmem).1 (by decide)

/-- What reading depends on: the first line, and what the rows give. -/
def sheet (pieces : List (List Char)) : List Char × List (Except String Sample) :=
  (Text.trim (pieces.headD []), (Text.filled pieces.tail).map readRow)

theorem sheet_lines (s : List Char) : sheet (Text.lines s) = sheet (s.splitOn '\n') := by
  obtain ⟨hfirst, hrows⟩ := Text.first_and_filled_lines s
  rw [sheet, sheet, hfirst, hrows]

theorem sheet_of_trim_eq (h : Text.trim l = Text.trim m) :
    sheet (front ++ l :: back) = sheet (front ++ m :: back) := by
  cases front with
  | nil => exact Prod.ext h rfl
  | cons first front =>
    have hfilled : Text.filled (front ++ l :: back) = Text.filled (front ++ m :: back) := by
      rw [Text.filled_append, Text.filled_append, Text.filled_cons_congr h rfl]
    exact Prod.ext rfl (congrArg (List.map readRow) hfilled)

theorem sheet_of_blank_row (hne : front ≠ []) (h : Text.trim l = []) :
    sheet (front ++ l :: back) = sheet (front ++ back) := by
  obtain ⟨first, front, rfl⟩ := List.exists_cons_of_ne_nil hne
  have hfilled : Text.filled (front ++ l :: back) = Text.filled (front ++ back) := by
    rw [Text.filled_append, Text.filled_append, Text.filled_cons_of_trim_eq_nil h]
  exact Prod.ext rfl (congrArg (List.map readRow) hfilled)

theorem forall₂_readsAs_iff (rows : List (List Char)) :
    List.Forall₂ ReadsAs (Text.filled rows) t ↔ (Text.filled rows).map readRow = t.map .ok := by
  have hsame : ∀ row x, ReadsAs row x ↔ readRow row = .ok x := fun row x => readRow_eq_ok_iff.symm
  rw [← List.forall₂_eq_eq_eq, List.forall₂_map_left_iff, List.forall₂_map_right_iff]
  constructor
  · exact List.Forall₂.imp fun row x => (hsame row x).mp
  · exact List.Forall₂.imp fun row x => (hsame row x).mpr

theorem parse_eq_ok_iff :
    parse text = .ok t ↔ sheet (text.toList.splitOn '\n') = (header.toList, t.map .ok) := by
  rw [← sheet_lines, parse_eq_iff]
  cases Text.lines text.toList with
  | nil =>
    constructor
    · rintro ⟨⟩
    · intro h
      have hempty : [] = header.toList := congrArg Prod.fst h
      cases hempty
  | cons first rows =>
    constructor
    · rintro ⟨hfirst, hrows⟩
      exact Prod.ext hfirst ((forall₂_readsAs_iff rows).mp hrows)
    · intro h
      exact .read (congrArg Prod.fst h) ((forall₂_readsAs_iff rows).mpr (congrArg Prod.snd h))

theorem trim_of_blank_ends (hpad : Text.AllBlank pad) (hpad' : Text.AllBlank pad') (s : List Char) :
    Text.trim (pad ++ s) = Text.trim s ∧ Text.trim (s ++ pad') = Text.trim s := by
  have hnone : Text.AllBlank [] := by decide
  have hstart := Text.trim_padded hpad hnone s
  rw [List.append_nil] at hstart
  exact ⟨hstart, Text.trim_padded hnone hpad' s⟩

theorem trim_fields (l m : List Char) :
    Text.trim (l ++ ',' :: m) = Text.trimLeft l ++ ',' :: Text.trimRight m := by
  have hleft : Text.trimLeft (l ++ ',' :: m) = Text.trimLeft l ++ ',' :: m := by
    rw [Text.trimLeft, List.dropWhile_append, List.dropWhile_cons_of_neg (by decide)]
    split
    · rename_i hempty
      rw [Text.trimLeft, List.isEmpty_iff.mp hempty, List.nil_append]
    · rfl
  have hlast : ∀ c ∈ (Text.trimLeft l ++ [',']).getLast?, Text.isBlank c = false := by
    intro c hc
    rw [List.getLast?_concat] at hc
    rw [← Option.some.inj hc]
    decide
  rw [Text.trim, hleft, List.append_cons, Text.trimRight_append hlast, ← List.append_cons]

theorem readRow_trim (hcycle : ',' ∉ l) (m : List Char) :
    readRow (Text.trim (l ++ ',' :: m)) = readRow (l ++ ',' :: m) := by
  have hleft : Text.trim (Text.trimLeft l) = Text.trim l := by
    have hblank : Text.AllBlank (l.takeWhile Text.isBlank) := fun c hc => List.mem_takeWhile_imp hc
    have hl : l = l.takeWhile Text.isBlank ++ Text.trimLeft l :=
      List.takeWhile_append_dropWhile.symm
    rw [congrArg Text.trim hl, (trim_of_blank_ends hblank hblank _).1]
  have hright : Text.trim (Text.trimRight m) = Text.trim m := by
    obtain ⟨after, hblank, hm⟩ := Text.exists_trimRight m
    rw [congrArg Text.trim hm, (trim_of_blank_ends hblank hblank _).2]
  have hcomma : ',' ∉ Text.trimLeft l := fun hmem => hcycle ((List.dropWhile_suffix _).subset hmem)
  rw [trim_fields, readRow_fields hcomma, readRow_fields hcycle, hleft, hright]

theorem sheet_of_readRow_eq (hne : front ≠ []) (hl : Text.trim l ≠ []) (hm : Text.trim m ≠ [])
    (h : readRow (Text.trim l) = readRow (Text.trim m)) :
    sheet (front ++ l :: back) = sheet (front ++ m :: back) := by
  obtain ⟨first, front, rfl⟩ := List.exists_cons_of_ne_nil hne
  have hrows : (Text.filled (front ++ l :: back)).map readRow =
      (Text.filled (front ++ m :: back)).map readRow := by
    rw [Text.filled_append, Text.filled_append, Text.filled_cons_of_trim_ne_nil hl,
      Text.filled_cons_of_trim_ne_nil hm, List.map_append, List.map_append, List.map_cons,
      List.map_cons, h]
  exact Prod.ext rfl hrows

theorem Edit.sheet_eq (h : Edit s s') : sheet (s'.splitOn '\n') = sheet (s.splitOn '\n') := by
  cases h with
  | @carriageReturn a b =>
    obtain ⟨front, l, -, hl, hsplit⟩ := Text.exists_last_piece a
    have hreturn : '\n' ∉ l ++ ['\r'] := by simpa using hl
    rw [hsplit, hsplit, List.append_cons, Text.splitOn_append_newline, Text.splitOn_append_newline,
      Text.splitOn_of_no_newline hl, Text.splitOn_of_no_newline hreturn]
    exact sheet_of_trim_eq (Text.trim_concat_blank (by decide) l)
  | @blankLine a pad b hpad hb =>
    obtain ⟨front, l, -, hl, hsplit⟩ := Text.exists_last_piece a
    obtain ⟨m, back, hm, hfeed, hpieces⟩ := Text.exists_first_piece b
    have hblank : Text.AllBlank m := hb.first_piece hm hfeed
    have hrow : Text.AllBlank (pad ++ m) := List.forall_mem_append.mpr ⟨hpad.allBlank, hblank⟩
    have htrim : Text.trim (pad ++ m) = [] := by
      have hpadded := (trim_of_blank_ends hrow hrow []).1
      rwa [List.append_nil] at hpadded
    rw [hsplit, hsplit, hpieces l hl, Text.splitOn_append_newline, Text.splitOn_of_no_newline hl,
      hpieces pad hpad.newline_not_mem, ← List.append_assoc, sheet_of_blank_row (by simp) htrim,
      List.append_assoc]
    exact (sheet_of_trim_eq (trim_of_blank_ends hblank hblank l).2).symm
  | @lineStart a pad b hpad ha =>
    obtain ⟨front, l, hsuffix, hl, hsplit⟩ := Text.exists_last_piece a
    obtain rfl := ha.last_piece hsuffix hl
    obtain ⟨m, back, -, -, hpieces⟩ := Text.exists_first_piece b
    have hplain := hpieces [] List.not_mem_nil
    rw [hsplit, hsplit, List.nil_append, hpieces pad hpad.newline_not_mem, hplain, List.nil_append]
    exact sheet_of_trim_eq (trim_of_blank_ends hpad.allBlank hpad.allBlank m).1
  | @lineEnd a pad b hpad hb =>
    obtain ⟨front, l, -, hl, hsplit⟩ := Text.exists_last_piece a
    obtain ⟨m, back, hm, hfeed, hpieces⟩ := Text.exists_first_piece b
    have hblank : Text.AllBlank m := hb.first_piece hm hfeed
    have hjoined : '\n' ∉ l ++ pad := by simpa using ⟨hl, hpad.newline_not_mem⟩
    rw [hsplit, hsplit, hpieces l hl, ← List.append_assoc, hpieces _ hjoined]
    refine sheet_of_trim_eq ?_
    rw [(trim_of_blank_ends hblank hblank _).2, (trim_of_blank_ends hblank hblank _).2,
      (trim_of_blank_ends hpad.allBlank hpad.allBlank l).2]
  | @fields a cycle pad pad' b hcycle hpad hpad' =>
    obtain ⟨front, l, hsuffix, hl, hsplit⟩ := Text.exists_last_piece cycle
    obtain ⟨m, back, -, -, hpieces⟩ := Text.exists_first_piece b
    have hcomma : ',' ∉ l := fun hmem => hcycle (hsuffix.subset hmem)
    have hcomma' : ',' ∉ l ++ pad := by simpa using ⟨hcomma, hpad.comma_not_mem⟩
    have hplain : '\n' ∉ l ++ [','] := by simpa using hl
    have hpadded : '\n' ∉ l ++ pad ++ ',' :: pad' := by
      simp [hl, hpad.newline_not_mem, hpad'.newline_not_mem]
    have hsame : readRow (Text.trim (l ++ pad ++ ',' :: (pad' ++ m))) =
        readRow (Text.trim (l ++ ',' :: m)) := by
      rw [readRow_trim hcomma', readRow_trim hcomma, readRow_fields hcomma', readRow_fields hcomma,
        (trim_of_blank_ends hpad.allBlank hpad.allBlank l).2,
        (trim_of_blank_ends hpad'.allBlank hpad'.allBlank m).1]
    have hfilled : ∀ l m, Text.trim (l ++ ',' :: m) ≠ [] := by
      intro l m
      rw [trim_fields]
      exact List.append_ne_nil_of_right_ne_nil _ (List.cons_ne_nil _ _)
    have hrow : (l ++ ',' :: b).splitOn '\n' = (l ++ ',' :: m) :: back := by
      simpa using hpieces _ hplain
    have hrow' : (l ++ (pad ++ ',' :: (pad' ++ b))).splitOn '\n' =
        (l ++ (pad ++ ',' :: (pad' ++ m))) :: back := by
      simpa using hpieces _ hpadded
    have hne : a.splitOn '\n' ++ front ≠ [] := by simp
    rw [List.append_assoc] at hsame
    rw [Text.splitOn_append_newline, Text.splitOn_append_newline, hsplit, hsplit, hrow, hrow',
      ← List.append_assoc (a.splitOn '\n'), ← List.append_assoc (a.splitOn '\n')]
    refine sheet_of_readRow_eq hne ?_ (hfilled l m) hsame
    rw [← List.append_assoc]
    exact hfilled (l ++ pad) (pad' ++ m)

theorem parse_eq_ok_of_edits (h : Relation.ReflTransGen Edit text.toList text'.toList) :
    parse text' = .ok t ↔ parse text = .ok t := by
  have hsheet : ∀ s', Relation.ReflTransGen Edit text.toList s' →
      sheet (s'.splitOn '\n') = sheet (text.toList.splitOn '\n') := by
    intro s' h
    induction h with
    | refl => rfl
    | tail _ hedit ih => rw [hedit.sheet_eq, ih]
  rw [parse_eq_ok_iff, parse_eq_ok_iff, hsheet _ h]

/-- The text with a carriage return before each line feed. -/
def withReturns (s : List Char) : List Char :=
  s.flatMap fun c => if c = '\n' then ['\r', '\n'] else [c]

theorem edits_withReturns (s : List Char) : Relation.ReflTransGen Edit s (withReturns s) := by
  suffices h : ∀ done, Relation.ReflTransGen Edit (done ++ s) (done ++ withReturns s) from h []
  induction s with
  | nil => exact fun done => .refl
  | cons c s ih =>
    intro done
    rw [withReturns, List.flatMap_cons, ← withReturns, ← List.append_assoc]
    split
    · rename_i hc
      subst hc
      have hedit : Edit (done ++ '\n' :: s) (done ++ ['\r', '\n'] ++ s) := by
        rw [List.append_assoc]
        exact .carriageReturn
      exact .head hedit (ih _)
    · rw [List.append_cons]
      exact ih _

/-- A text is read when its first line is the header and each filled row below has a count and a
number around its first comma. Otherwise the error names the first line that is not so, whatever
follows it. Line ends, blank lines below the header and blanks around lines and fields make no
difference to the samples. -/
theorem read_up_to_first_fault (text : String) :
    (∀ r, parse text = r ↔ Verdict (Text.lines text.toList) r) ∧
    ((∃ t, parse text = .ok t) ↔
      ∃ first rows, Text.lines text.toList = first :: rows ∧ Text.trim first = header.toList ∧
        ∀ row ∈ rows, Text.trim row ≠ [] → ∃ x, ReadsAs (Text.trim row) x) ∧
    (∀ row, (∃ message, Fails row message) ↔ ¬∃ x, ReadsAs row x) ∧
    (∀ e text', parse text = .error e →
      (Text.lines text'.toList).take e.line = (Text.lines text.toList).take e.line →
      parse text' = .error e) ∧
    (∀ text', Relation.ReflTransGen Edit text.toList text'.toList →
      ∀ t, parse text' = .ok t ↔ parse text = .ok t) ∧
    ∀ t, parse (String.ofList (withReturns text.toList)) = .ok t ↔ parse text = .ok t := by
  refine ⟨fun r => parse_eq_iff, exists_parse_eq_ok_iff, fun row => exists_fails_iff,
    fun e text' => parse_eq_error_of_take, ?_, ?_⟩
  · exact fun text' hedits t => parse_eq_ok_of_edits hedits
  · intro t
    refine parse_eq_ok_of_edits ?_
    rw [String.toList_ofList]
    exact edits_withReturns _

/-- The fourth line is bad whatever follows it, and a blank line and padded fields are read over. -/
theorem fourth_line_bad_and_sample_padded :
    parse "Clock Cycle,Probability\n3,0.5\n\nx\n4,0.5" = .error ⟨4, "expected two columns"⟩ ∧
    parse "Clock Cycle,Probability\n3,0.5\n\nx\ny,y" = .error ⟨4, "expected two columns"⟩ ∧
    parse "Clock Cycle,Probability\n3,0.5" = .ok [⟨3, Trace.half⟩] ∧
    parse "Clock Cycle,Probability\n \n3 , 0.5" = .ok [⟨3, Trace.half⟩] := by
  have hfault : parse "Clock Cycle,Probability\n3,0.5\n\nx\n4,0.5" =
      .error ⟨4, "expected two columns"⟩ := by decide +kernel
  have hread : parse "Clock Cycle,Probability\n3,0.5" = .ok [⟨3, Trace.half⟩] := by decide +kernel
  have hspace : Pads [' '] := by
    intro c hc
    rw [List.mem_singleton.mp hc]
    decide
  have hblank : Edit "Clock Cycle,Probability\n3,0.5".toList
      "Clock Cycle,Probability\n \n3,0.5".toList :=
    @Edit.blankLine header.toList [' '] "\n3,0.5".toList hspace (.inr (.inl ⟨"3,0.5".toList, rfl⟩))
  have hfields : Edit "Clock Cycle,Probability\n \n3,0.5".toList
      "Clock Cycle,Probability\n \n3 , 0.5".toList :=
    @Edit.fields "Clock Cycle,Probability\n ".toList ['3'] [' '] [' '] "0.5".toList (by decide)
      hspace hspace
  obtain ⟨-, -, -, hrest, -, -⟩ :=
    read_up_to_first_fault "Clock Cycle,Probability\n3,0.5\n\nx\n4,0.5"
  obtain ⟨-, -, -, -, hedits, -⟩ := read_up_to_first_fault "Clock Cycle,Probability\n3,0.5"
  refine ⟨hfault, hrest _ _ hfault (by decide +kernel), hread, ?_⟩
  exact (hedits _ (.tail (.single hblank) hfields) _).mpr hread

end NoiseTimeline.TimelineCsv
