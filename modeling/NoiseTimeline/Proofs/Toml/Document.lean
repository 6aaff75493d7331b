import Mathlib.Data.List.Basic
import NoiseTimeline.Proofs.Toml.Reader

/-! A document that is written table by table reads back. A line adds one field to the
table it stands in, and a header opens the next table. -/

namespace NoiseTimeline.Toml

open Document (place readRange)

variable {d : Document} {before inner : Fields} {table : String} {name : String} {v : SettingValue}
  {lead : List Char} {fuel : Nat}

/-- The lines that come next stand in the last table, which has been opened by its own header. -/
structure Document.Under (d : Document) (before : Fields) (table : String)
    (inner : Fields) : Prop where
  place : d.place = [table]
  fields : d.fields = before ++ [(table, .table .header inner)]
  fresh : before.lookup table = none

/-- A line that sets a field. -/
def fieldLine (f : String × SettingValue) : List Char :=
  f.1.toList ++ (' ' :: '=' :: ' ' :: (f.2.toToml.toList ++ ['\n']))

theorem Fields.set_last (h : before.lookup table = none) (v w : Tree) :
    Fields.set table w (before ++ [(table, v)]) = before ++ [(table, w)] := by
  have hbefore : before.map (fun f => if f.1 == table then (table, w) else f) = before := by
    rw [List.lookup_eq_none_iff] at h
    have hkeep : ∀ f ∈ before, (if f.1 == table then (table, w) else f) = id f := by
      intro f hf
      rw [if_neg]
      · rfl
      · intro heq
        have hne := h f hf
        simp [beq_iff_eq.mp heq] at hne
    rw [List.map_congr_left hkeep, List.map_id]
  rw [Fields.set, List.map_append, hbefore]
  simp

theorem Fields.within?_last (h : before.lookup table = none) (change : Fields → Option Fields) :
    Fields.within? change [table] (before ++ [(table, .table .header inner)]) =
      (change inner).map fun inner => before ++ [(table, .table .header inner)] := by
  have hlookup : (before ++ [(table, Tree.table .header inner)]).lookup table =
      some (.table .header inner) := by
    rw [List.lookup_append, h]
    simp
  rw [Fields.within?, hlookup]
  dsimp only
  rw [Fields.within?]
  cases change inner with
  | none => rfl
  | some inner' => simp only [Option.map_some, Fields.set_last h]

theorem getLast?_addLine (a : Assignment) (ss : List Section) :
    (Document.addLine a ss).getLast?.map Section.header = ss.getLast?.map Section.header := by
  induction ss with
  | nil => rfl
  | cons s ss ih =>
    cases ss with
    | nil => rfl
    | cons s' ss =>
      have hne : Document.addLine a (s' :: ss) ≠ [] := by
        cases ss <;> exact List.cons_ne_nil _ _
      have hlast : Document.addLine a (s :: s' :: ss) = s :: Document.addLine a (s' :: ss) := rfl
      rw [hlast, List.getLast?_cons_of_ne_nil hne, ih, List.getLast?_cons_cons]

theorem place_eq (d : Document) :
    d.place = ((d.sections.getLast?.map Section.header).map fun h => names h.key).getD [] := by
  rw [place]
  cases d.sections.getLast? <;> rfl

theorem afterLine?_lineEnd (r : List Char) : afterLine? ('\n' :: r) = some ('\n' :: r) := rfl

theorem exists_toToml_eq_cons (v : SettingValue) :
    ∃ c l, v.toToml.toList = c :: l ∧ isSpace c = false := by
  cases v with
  | text s =>
    have hhead := head?_quotedText s.toList
    rw [SettingValue.toToml, String.toList_ofList]
    rcases hwritten : quotedText s.toList with - | ⟨c, l⟩
    · simp [hwritten] at hhead
    · rw [hwritten, List.head?_cons, Option.some.injEq, Option.some.injEq] at hhead
      exact ⟨c, l, rfl, by rcases hhead with rfl | rfl <;> decide⟩
  | count n =>
    rw [SettingValue.toToml, Decimal.toList_toString]
    rcases hwritten : Decimal.digitTexts n with - | ⟨c, l⟩
    · exact absurd hwritten (Decimal.digitTexts_ne_nil n)
    · have hc : isDigit c = true :=
        Decimal.isDigit_of_mem_digitTexts (hwritten ▸ List.mem_cons_self)
      refine ⟨c, l, rfl, ?_⟩
      rw [Bool.eq_false_iff]
      intro hspace
      have hblank : c = ' ' ∨ c = '\t' := by simpa [isSpace] using hspace
      rcases hblank with rfl | rfl
      · exact absurd hc (by decide)
      · exact absurd hc (by decide)
  | flag b => cases b <;> exact ⟨_, _, rfl, by decide⟩

theorem Document.Under.readAssignment?_eq (h : d.Under before table inner)
    {f : String × SettingValue} (hkey : IsBareKey f.1.toList) (hnew : inner.lookup f.1 = none)
    (hfits : f.2.Fits) (lead r : List Char) :
    ∃ d', Document.readAssignment? readRange d lead (fieldLine f ++ r) = some (d', '\n' :: r) ∧
      d'.Under before table (inner ++ [(f.1, f.2.toTree)]) := by
  obtain ⟨name, v⟩ := f
  dsimp only at hkey hnew hfits ⊢
  have hsplit : fieldLine (name, v) ++ r =
      name.toList ++ ([' '] ++ '=' :: ' ' :: (v.toToml.toList ++ '\n' :: r)) := by
    simp [fieldLine]
  have hsections : d.sections.isEmpty = false := by
    have hplace := h.place
    rw [place_eq] at hplace
    cases hempty : d.sections with
    | nil =>
      rw [hempty] at hplace
      cases hplace
    | cons s ss => rfl
  obtain ⟨part, hread, hname⟩ := key?_bare hkey [' '] (by decide) (c := '=') (by decide)
    (fieldLine (name, v) ++ r).length (' ' :: (v.toToml.toList ++ '\n' :: r))
  have hvalue := value?_toToml hfits (2 * (' ' :: (v.toToml.toList ++ '\n' :: r)).length + 1) 0 r
  have hblank : (' ' :: (v.toToml.toList ++ '\n' :: r)).dropWhile isSpace =
      v.toToml.toList ++ '\n' :: r := by
    obtain ⟨c, l, hwritten, hc⟩ := exists_toToml_eq_cons v
    rw [hwritten, List.dropWhile_cons_of_pos (by decide), List.cons_append,
      List.dropWhile_cons_of_neg (by simp [hc])]
  have hassign : Fields.assign? v.toTree (names [part]) inner =
      some (inner ++ [(name, v.toTree)]) := by
    have hnames : names [part] = [name] := by
      rw [names, List.map_singleton, hname, String.ofList_toList]
    rw [hnames, Fields.assign?, if_neg (by simp [hnew])]
  have hfields : Fields.within? (Fields.assign? v.toTree (names [part])) d.place d.fields =
      some (before ++ [(table, .table .header (inner ++ [(name, v.toTree)]))]) := by
    rw [h.place, h.fields, Fields.within?_last h.fresh, hassign]
    rfl
  let line : Assignment := ⟨lead, [part],
    Document.untilLineEnd (' ' :: (v.toToml.toList ++ '\n' :: r)) ('\n' :: r)⟩
  refine ⟨{ d with
    fields := before ++ [(table, .table .header (inner ++ [(name, v.toTree)]))]
    sections := Document.addLine line d.sections }, ?_, ?_⟩
  · rw [Document.readAssignment?]
    rw [hsplit] at hread ⊢
    simp only [hread, bind, Option.bind, expect?, if_true, hblank, hvalue, afterLine?_lineEnd,
      hfields, hsections]
    rfl
  · refine ⟨?_, rfl, h.fresh⟩
    have hplace := h.place
    rw [place_eq] at hplace ⊢
    rw [getLast?_addLine]
    exact hplace

theorem Document.readHeader?_eq (hkey : IsBareKey table.toList)
    (hfresh : d.fields.lookup table = none) (lead r : List Char) :
    ∃ d', Document.readHeader? false d lead (table.toList ++ ']' :: '\n' :: r) =
      some (d', '\n' :: r) ∧ d'.Under d.fields table [] := by
  obtain ⟨part, hread, hname⟩ := key?_bare hkey [] (by decide) (c := ']') (by decide)
    (table.toList ++ ']' :: '\n' :: r).length ('\n' :: r)
  have hnames : names [part] = [table] := by
    rw [names, List.map_singleton, hname, String.ofList_toList]
  have hopen : Fields.within? (Fields.open? table) [table].dropLast d.fields =
      some (d.fields ++ [(table, .table .header [])]) := by
    rw [List.dropLast_singleton, Fields.within?, Fields.open?, hfresh]
  let header : Header := ⟨lead, false, [part], Document.untilLineEnd ('\n' :: r) ('\n' :: r)⟩
  refine ⟨{ d with fields := d.fields ++ [(table, .table .header [])], sections :=
    d.sections ++ [⟨header, []⟩] }, ?_, ?_⟩
  · rw [Document.readHeader?]
    rw [List.nil_append] at hread
    simp only [hread, bind, Option.bind, expect?, if_true, Bool.false_eq_true, if_false,
      afterLine?_lineEnd, hnames, List.getLast?_singleton, hopen]
    rfl
  · refine ⟨?_, rfl, hfresh⟩
    rw [place_eq, List.getLast?_concat]
    exact hnames

theorem toList_fieldsText (fields : List (String × SettingValue)) :
    (tomlLanguage.fieldsText fields).toList = fields.flatMap fieldLine := by
  rw [tomlLanguage, String.toList_join, List.flatMap_map]
  apply List.flatMap_congr
  intro f _
  simp [fieldLine]

theorem not_mem_toToml (v : SettingValue) : '\r' ∉ v.toToml.toList := by
  cases v with
  | text s =>
    rw [SettingValue.toToml, String.toList_ofList]
    exact not_mem_quotedText _
  | count n =>
    rw [SettingValue.toToml, Decimal.toList_toString]
    intro hmem
    exact absurd (Decimal.isDigit_of_mem_digitTexts hmem) (by decide)
  | flag b => cases b <;> decide

theorem not_mem_fieldLine {f : String × SettingValue} (hkey : IsBareKey f.1.toList) :
    '\r' ∉ fieldLine f := by
  have hname : '\r' ∉ f.1.toList := fun hmem => absurd (hkey.2 '\r' hmem) (by decide)
  simp [fieldLine, hname, not_mem_toToml]

theorem toList_fieldsText_lines {fields : List (String × SettingValue)}
    (hkeys : ∀ f ∈ fields, IsBareKey f.1.toList) :
    (String.join ((Text.linesOf (tomlLanguage.fieldsText fields)).map (· ++ "\n"))).toList =
      fields.flatMap fieldLine := by
  have hreturn : '\r' ∉ fields.flatMap fieldLine := by
    rw [List.mem_flatMap]
    rintro ⟨f, hf, hmem⟩
    exact not_mem_fieldLine (hkeys f hf) hmem
  have hlines : (Text.lines (fields.flatMap fieldLine)).flatMap (· ++ ['\n']) =
      fields.flatMap fieldLine := by
    rcases List.eq_nil_or_concat' fields with rfl | ⟨before, last, rfl⟩
    · rfl
    · have hend : (before ++ [last]).flatMap fieldLine =
          before.flatMap fieldLine ++
            (last.1.toList ++ (' ' :: '=' :: ' ' :: last.2.toToml.toList)) ++ ['\n'] := by
        simp [fieldLine]
      rw [hend] at hreturn ⊢
      exact Text.flatMap_linesFrom List.not_mem_nil (mt (List.mem_append_left _) hreturn)
  rw [Text.linesOf, toList_fieldsText, String.toList_join, List.map_map, List.flatMap_map, ← hlines]
  simp [hlines]

/-! Whole texts. -/

/-- The entry that a section makes. -/
def sectionEntry (name : String) (values : List (String × SettingValue)) : String × Tree :=
  (name, .table .header (values.map fun f => (f.1, f.2.toTree)))

/-- Texts of comments, blank lines and sections, with the entries that the sections make. Neither
sections nor their fields need quotes for their names, and these are distinct. -/
inductive Sections (header : String → String)
    (fieldsText : List (String × SettingValue) → String) : String → Fields → Prop
  | nil : Sections header fieldsText "" []
  | blank {text : String} {fields : Fields} (h : Sections header fieldsText text fields) :
      Sections header fieldsText ("\n" ++ text) fields
  | comment {line text : String} {fields : Fields}
      (hline : ∀ c ∈ line.toList, isControl c = false)
      (h : Sections header fieldsText text fields) :
      Sections header fieldsText ("#" ++ line ++ "\n" ++ text) fields
  | headed {name text : String} {values : List (String × SettingValue)} {fields : Fields}
      (hname : IsBareKey name.toList) (hfresh : ∀ f ∈ fields, f.1 ≠ name)
      (hkeys : ∀ f ∈ values, IsBareKey f.1.toList) (hdistinct : (values.map Prod.fst).Nodup)
      (hfits : ∀ f ∈ values, f.2.Fits) (h : Sections header fieldsText text fields) :
      Sections header fieldsText
        (header name ++ "\n" ++
          String.join ((Text.linesOf (fieldsText values)).map (· ++ "\n")) ++ text)
        (sectionEntry name values :: fields)

theorem IsBareKey.exists_cons (h : IsBareKey name.toList) :
    ∃ c l, name.toList = c :: l ∧ isBare c = true := by
  obtain ⟨hne, hbare⟩ := h
  cases hname : name.toList with
  | nil => exact absurd hname hne
  | cons c l => exact ⟨c, l, rfl, hbare c (hname ▸ List.mem_cons_self)⟩

theorem readFrom?_fieldLine (h : d.Under before table inner) {f : String × SettingValue}
    (hkey : IsBareKey f.1.toList) (hnew : inner.lookup f.1 = none) (hfits : f.2.Fits) (fuel : Nat)
    (r : List Char) :
    ∃ d', Document.readFrom? readRange (fuel + 1) d (fieldLine f ++ r) =
      Document.readFrom? readRange fuel d' r ∧
      d'.Under before table (inner ++ [(f.1, f.2.toTree)]) := by
  obtain ⟨c, l, hname, hc⟩ := hkey.exists_cons
  obtain ⟨hspace, -, -, hcomment, hbracket, hfeed, hreturn⟩ := ne_of_isBare hc
  have hline : fieldLine f ++ r =
      c :: (l ++ (' ' :: '=' :: ' ' :: (f.2.toToml.toList ++ ['\n'])) ++ r) := by
    rw [fieldLine, hname]
    rfl
  have hstart : ∀ d ∈ (fieldLine f ++ r).head?, isSpace d = false ∧ d ≠ '#' ∧ d ≠ '\n' ∧
      d ≠ '\r' := by
    rw [hline]
    rintro d ⟨⟩
    exact ⟨hspace, hcomment, hfeed, hreturn⟩
  have hgap : gap? (fieldLine f ++ r) = some (fieldLine f ++ r) := Gap.nil.gap?_eq hstart
  obtain ⟨d', hread, hunder⟩ :=
    h.readAssignment?_eq hkey hnew hfits
      (Document.untilLineEnd (fieldLine f ++ r) (fieldLine f ++ r)) r
  refine ⟨d', ?_, hunder⟩
  rw [Document.readFrom?]
  simp only [hgap, bind, Option.bind]
  generalize fieldLine f ++ r = line at hline hread ⊢
  split
  · cases hline
  · exact absurd (List.cons.inj hline).1.symm hbracket
  · exact absurd (List.cons.inj hline).1.symm hbracket
  · rw [hread]
    rfl

theorem readFrom?_fieldLines (fields : List (String × SettingValue))
    (h : d.Under before table inner) (hkeys : ∀ f ∈ fields, IsBareKey f.1.toList)
    (hfits : ∀ f ∈ fields, f.2.Fits) (hdistinct : (inner.map Prod.fst ++ fields.map Prod.fst).Nodup)
    (fuel : Nat) (r : List Char) :
    ∃ d', Document.readFrom? readRange (fuel + fields.length) d (fields.flatMap fieldLine ++ r) =
        Document.readFrom? readRange fuel d' r ∧
      d'.Under before table (inner ++ fields.map fun f => (f.1, f.2.toTree)) := by
  induction fields generalizing d inner with
  | nil => exact ⟨d, rfl, by simpa using h⟩
  | cons f fields ih =>
    have hnew : inner.lookup f.1 = none := by
      rw [List.lookup_eq_none_iff]
      intro g hg
      have hne :=
        (List.nodup_append.mp hdistinct).2.2 g.1 (List.mem_map_of_mem hg) f.1 List.mem_cons_self
      simpa using hne.symm
    obtain ⟨d₁, hread, hunder⟩ :=
      readFrom?_fieldLine h (hkeys f List.mem_cons_self) hnew (hfits f List.mem_cons_self)
        (fuel + fields.length) (fields.flatMap fieldLine ++ r)
    obtain ⟨d₂, hrest, hunder'⟩ := ih hunder (fun g hg => hkeys g (List.mem_cons_of_mem f hg))
      (fun g hg => hfits g (List.mem_cons_of_mem f hg)) (by simpa using hdistinct)
    refine ⟨d₂, ?_, by simpa using hunder'⟩
    rw [List.flatMap_cons, List.append_assoc]
    exact hread.trans hrest

theorem readFrom?_header (hlead : Gap lead) (hkey : IsBareKey table.toList)
    (hfresh : d.fields.lookup table = none) (fuel : Nat) (r : List Char) :
    ∃ d', Document.readFrom? readRange (fuel + 1) d
      (lead ++ '[' :: (table.toList ++ ']' :: '\n' :: r)) =
        Document.readFrom? readRange fuel d' r ∧ d'.Under d.fields table [] := by
  obtain ⟨c, l, hname, hc⟩ := hkey.exists_cons
  obtain ⟨-, -, -, -, hbracket, -⟩ := ne_of_isBare hc
  have hgap : gap? (lead ++ '[' :: (table.toList ++ ']' :: '\n' :: r)) =
      some ('[' :: (table.toList ++ ']' :: '\n' :: r)) :=
    hlead.gap?_eq (by rintro d ⟨⟩; decide)
  obtain ⟨d', hread, hunder⟩ := Document.readHeader?_eq hkey hfresh
    (Document.untilLineEnd (lead ++ '[' :: (table.toList ++ ']' :: '\n' :: r))
      ('[' :: (table.toList ++ ']' :: '\n' :: r))) r
  refine ⟨d', ?_, hunder⟩
  rw [Document.readFrom?]
  simp only [hgap, bind, Option.bind]
  have hline : table.toList ++ ']' :: '\n' :: r = c :: (l ++ ']' :: '\n' :: r) := by
    rw [hname]
    rfl
  generalize table.toList ++ ']' :: '\n' :: r = line at hline hread ⊢
  split
  · rename_i heq
    cases heq
  · rename_i heq
    rw [hline] at heq
    exact absurd (List.cons.inj (List.cons.inj heq).2).1 hbracket
  · rename_i heq
    cases heq
    rw [hread]
    rfl
  · rename_i hne
    exact absurd rfl (hne line)

theorem length_le_fieldLines (values : List (String × SettingValue)) :
    values.length ≤ (values.flatMap fieldLine).length := by
  induction values with
  | nil => exact Nat.le_refl 0
  | cons f values ih =>
    have hline : 0 < (fieldLine f).length := by
      rw [fieldLine, List.length_append]
      exact Nat.add_pos_right _ (Nat.succ_pos _)
    rw [List.flatMap_cons, List.length_append, List.length_cons]
    omega

theorem toList_headed (text : String) {values : List (String × SettingValue)}
    (hkeys : ∀ f ∈ values, IsBareKey f.1.toList) :
    (tomlLanguage.sectionHeader name ++ "\n" ++
      String.join ((Text.linesOf (tomlLanguage.fieldsText values)).map (· ++ "\n")) ++
        text).toList =
        '[' :: (name.toList ++ ']' :: '\n' :: (values.flatMap fieldLine ++ text.toList)) := by
  rw [String.toList_append, String.toList_append, toList_fieldsText_lines hkeys]
  simp [tomlLanguage]

theorem readFrom?_sections {text : String} {fields : Fields}
    (h : Sections tomlLanguage.sectionHeader tomlLanguage.fieldsText text fields)
    (hapart : ∀ f ∈ fields, d.fields.lookup f.1 = none) (hlead : Gap lead)
    (hfuel : text.toList.length < fuel) :
    ∃ d', Document.readFrom? readRange fuel d (lead ++ text.toList) = some d' ∧
      d'.fields = d.fields ++ fields := by
  induction h generalizing d lead fuel with
  | nil =>
    obtain ⟨fuel, rfl⟩ := Nat.exists_eq_succ_of_ne_zero (Nat.ne_of_gt hfuel)
    have hgap : gap? (lead ++ []) = some [] := hlead.gap?_eq nofun
    refine ⟨{ d with tail := Document.untilLineEnd (lead ++ []) [] }, ?_, (List.append_nil _).symm⟩
    rw [String.toList_empty, Document.readFrom?]
    simp only [hgap, bind, Option.bind]
    rfl
  | @blank text fields h ih =>
    have htext : ("\n" ++ text).toList = ['\n'] ++ text.toList := String.toList_append
    rw [htext] at hfuel ⊢
    rw [← List.append_assoc]
    exact ih hapart (hlead.append (.lineEnd .nil)) (Nat.lt_of_succ_lt hfuel)
  | @comment line text fields hline h ih =>
    have htext : ("#" ++ line ++ "\n" ++ text).toList =
        ('#' :: (line.toList ++ ['\n'])) ++ text.toList := by simp
    rw [htext] at hfuel ⊢
    rw [← List.append_assoc]
    refine ih hapart (hlead.append (.comment hline .nil)) (Nat.lt_of_le_of_lt ?_ hfuel)
    exact List.length_append ▸ Nat.le_add_left _ _
  | @headed name text values fields hname hfresh hkeys hdistinct hfits h ih =>
    rw [toList_headed text hkeys] at hfuel ⊢
    have hcount := length_le_fieldLines values
    simp only [List.length_cons, List.length_append] at hfuel
    obtain ⟨k, rfl⟩ : ∃ k, fuel = k + values.length + 1 := ⟨fuel - (values.length + 1), by omega⟩
    obtain ⟨d₁, hheader, hopen⟩ := readFrom?_header hlead hname (hapart _ List.mem_cons_self)
      (k + values.length) (values.flatMap fieldLine ++ text.toList)
    obtain ⟨d₂, hlines, hunder⟩ :=
      readFrom?_fieldLines values hopen hkeys hfits (by simpa using hdistinct) k text.toList
    have hfields : d₂.fields = d.fields ++ [sectionEntry name values] := hunder.fields
    have hapart' : ∀ f ∈ fields, d₂.fields.lookup f.1 = none := by
      intro f hf
      have hne := hfresh f hf
      rw [hfields, List.lookup_append, hapart f (List.mem_cons_of_mem _ hf)]
      simp [sectionEntry, hne]
    have hless : text.toList.length < k := by omega
    obtain ⟨d₃, hrest, hfields'⟩ := ih hapart' .nil hless
    refine ⟨d₃, ?_, ?_⟩
    · rw [hheader, hlines]
      exact hrest
    · rw [hfields', hfields, List.append_assoc]
      rfl

theorem ne_mark_of_sections {text : String} {fields : Fields}
    (h : Sections tomlLanguage.sectionHeader tomlLanguage.fieldsText text fields) :
    ∀ c ∈ text.toList.head?, c ≠ '\ufeff' := by
  cases h with
  | nil => exact nofun
  | blank h =>
    rw [String.toList_append]
    rintro c ⟨⟩
    decide
  | comment hline h =>
    rw [String.append_assoc, String.append_assoc, String.toList_append]
    rintro c ⟨⟩
    decide
  | headed hname hfresh hkeys hdistinct hfits h =>
    rw [toList_headed _ hkeys]
    rintro c ⟨⟩
    decide

theorem read?_sections {text : String} {fields : Fields}
    (h : Sections tomlLanguage.sectionHeader tomlLanguage.fieldsText text fields) :
    (Document.read? readRange text).map Document.fields = some fields := by
  have hread : Document.read? readRange text =
      Document.readFrom? readRange (text.toList.length + 2) {} text.toList := by
    rw [Document.read?]
    split
    · rename_i heq
      exact absurd rfl (ne_mark_of_sections h '\ufeff' (by rw [heq]; rfl))
    · rfl
  have hless : text.toList.length < text.toList.length + 2 := by omega
  obtain ⟨d, hd, hfields⟩ := readFrom?_sections h (d := {}) (fun _ _ => rfl) .nil hless
  rw [hread]
  exact Option.map_eq_some_iff.mpr ⟨d, hd, hfields⟩

/-! Removed entries. -/

theorem Document.foldl_remove (removed : List String) (d : Document) :
    removed.foldl (fun d name => Document.remove name d) d = { d with
      start := d.start.filter fun a => !removed.any fun name => Document.startsWith name a.key
      sections :=
        d.sections.filter fun s => !removed.any fun name => Document.startsWith name s.header.key
      fields := d.fields.filter fun f => !removed.any fun name => f.1 == name } := by
  induction removed generalizing d with
  | nil => simp
  | cons name removed ih =>
    rw [List.foldl_cons, ih, Document.remove]
    simp [List.filter_filter, Bool.not_or, Bool.and_comm, bne]

theorem Document.foldl_remove_congr {removed removed' : List String}
    (h : ∀ name, name ∈ removed ↔ name ∈ removed') (d : Document) :
    removed.foldl (fun d name => Document.remove name d) d =
      removed'.foldl (fun d name => Document.remove name d) d := by
  have hany : ∀ p : String → Bool, removed.any p = removed'.any p := by
    intro p
    rw [Bool.eq_iff_iff, List.any_eq_true, List.any_eq_true]
    simp [h]
  rw [foldl_remove, foldl_remove]
  simp only [hany]

/-! Data of TOML can be compared. -/

mutual

def Tree.same : Tree → Tree → Bool
  | .text s, .text s' => s == s'
  | .integer n, .integer n' => n == n'
  | .real x, .real x' => x == x'
  | .bool b, .bool b' => b == b'
  | .moment s, .moment s' => s == s'
  | .list l, .list l' => Tree.sameItems l l'
  | .table origin fields, .table origin' fields' =>
    origin == origin' && Tree.sameFields fields fields'
  | .tables l, .tables l' => Tree.sameItems l l'
  | _, _ => false

def Tree.sameItems : List Tree → List Tree → Bool
  | [], [] => true
  | v :: l, v' :: l' => v.same v' && Tree.sameItems l l'
  | _, _ => false

def Tree.sameFields : Fields → Fields → Bool
  | [], [] => true
  | (name, v) :: l, (name', v') :: l' => name == name' && v.same v' && Tree.sameFields l l'
  | _, _ => false

end

mutual

theorem Tree.same_iff : ∀ v v' : Tree, v.same v' = true ↔ v = v'
  | .text s, v' => by cases v' <;> simp [same]
  | .integer n, v' => by cases v' <;> simp [same]
  | .real x, v' => by cases v' <;> simp [same]
  | .bool b, v' => by cases v' <;> simp [same]
  | .moment s, v' => by cases v' <;> simp [same]
  | .list l, v' => by cases v' <;> simp [same, sameItems_iff l]
  | .table origin fields, v' => by cases v' <;> simp [same, sameFields_iff fields]
  | .tables l, v' => by cases v' <;> simp [same, sameItems_iff l]

theorem Tree.sameItems_iff : ∀ l l' : List Tree, Tree.sameItems l l' = true ↔ l = l'
  | [], l' => by cases l' <;> simp [sameItems]
  | v :: l, l' => by cases l' <;> simp [sameItems, same_iff v, sameItems_iff l]

theorem Tree.sameFields_iff : ∀ l l' : Fields, Tree.sameFields l l' = true ↔ l = l'
  | [], l' => by cases l' <;> simp [sameFields]
  | (name, v) :: l, l' => by
    cases l' with
    | nil => simp [sameFields]
    | cons f' l' => simp [sameFields, same_iff v, sameFields_iff l, Prod.ext_iff]

end

instance : DecidableEq Tree := fun v v' => decidable_of_iff _ (Tree.same_iff v v')

end NoiseTimeline.Toml
