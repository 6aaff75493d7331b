import NoiseTimeline.Json.Reader
import NoiseTimeline.Json.Value
import NoiseTimeline.Proofs.Number.Digits

/-! JSON that was written on one line is read back, as long as it has no real numbers.
A text survives its escapes, and a count is told from what follows it. -/

namespace NoiseTimeline

/-- A count as it is spelled. -/
def JsonNumber.ofCount (n : Nat) : JsonNumber := ⟨false, Decimal.digitTexts n, none, none⟩

theorem JsonNumber.count?_ofCount {limit n : Nat} (h : n < limit) :
    (ofCount n).count? limit = some n := by
  rw [count?, if_neg (by simp [ofCount])]
  simp only [ofCount, digitsValue, Decimal.digitsFrom_digitTexts, h, if_true]

namespace JsonTree

/-- A text in quotes is followed by anything, a number by what cannot continue it. -/
def EndsValue (rest : List Char) : Prop := ∀ c ∈ rest.head?, c = ',' ∨ c = ']' ∨ c = '}'

theorem EndsValue.nil : EndsValue [] := nofun

theorem EndsValue.cons {c : Char} (h : c = ',' ∨ c = ']' ∨ c = '}') (rest : List Char) :
    EndsValue (c :: rest) := by
  rintro d ⟨⟩
  exact h

theorem EndsValue.isDigit {rest : List Char} (h : EndsValue rest) :
    ∀ c ∈ rest.head?, isDigit c = false := by
  intro c hc
  rcases h c hc with rfl | rfl | rfl <;> decide

theorem skipSpace_cons {c : Char} (h : isSpace c = false) (s : List Char) :
    skipSpace (c :: s) = c :: s := by
  rw [skipSpace, List.dropWhile_cons_of_neg (by simp [h])]

/-! Texts -/

theorem hexUnit?_control :
    ∀ n < 0x20, hexUnit? ['0', '0', Text.hexDigit (n / 16), Text.hexDigit (n % 16)] = some n := by
  decide

/-- However a character is written, it is read as one item that stands for it. -/
theorem readItems_escapedChar (c : Char) : ∃ item,
    (∀ s, readItems (Json.escapedChar c ++ s) =
      (readItems s).map fun (items, rest) => (item :: items, rest)) ∧
    ∀ items, assemble (item :: items) = (assemble items).map (c :: ·) := by
  unfold Json.escapedChar
  split
  case h_8 _ hquote hslash _ _ _ _ _ =>
    split
    · rename_i hcontrol
      refine ⟨.unit c.toNat, fun s => ?_, fun items => ?_⟩
      · simp only [List.cons_append, List.nil_append]
        rw [readItems, hexUnit?_control c.toNat hcontrol]
      · rw [assemble.eq_def]
        dsimp only
        rw [if_pos (Or.inl (by omega)), Char.ofNat_toNat]
    · rename_i hcontrol
      refine ⟨.char c, fun s => ?_, fun items => rfl⟩
      have hplain : ¬ (c.toNat < 0x20 ∨ c = '\\') := not_or.mpr ⟨hcontrol, hslash⟩
      rw [List.singleton_append, readItems.eq_def]
      split
      case h_5 =>
        rename_i heq
        cases heq
        rw [if_neg hplain]
      all_goals simp_all
  all_goals exact ⟨.char _, fun s => rfl, fun items => rfl⟩

theorem readItems_flatMap (s rest : List Char) : ∃ items,
    readItems (s.flatMap Json.escapedChar ++ '"' :: rest) = some (items, rest) ∧
    assemble items = some s := by
  induction s with
  | nil => exact ⟨[], rfl, rfl⟩
  | cons c s ih =>
    obtain ⟨item, hread, hassemble⟩ := readItems_escapedChar c
    obtain ⟨items, hitems, hs⟩ := ih
    refine ⟨item :: items, ?_, ?_⟩
    · rw [List.flatMap_cons, List.append_assoc, hread, hitems, Option.map_some]
    · rw [hassemble, hs, Option.map_some]

theorem toList_quotedText (s : String) :
    (Json.quotedText s).toList = '"' :: (s.toList.flatMap Json.escapedChar ++ ['"']) := by
  rw [Json.quotedText, String.toList_ofList, List.cons_append]

theorem readText_flatMap (s : String) (rest : List Char) :
    readText (s.toList.flatMap Json.escapedChar ++ '"' :: rest) = some (some s, rest) := by
  obtain ⟨items, hread, hassemble⟩ := readItems_flatMap s.toList rest
  rw [readText, hread, Option.map_some]
  dsimp only
  rw [hassemble, Option.map_some, String.ofList_toList]

/-! Counts -/

theorem readExponent_of_ends {rest : List Char} (h : EndsValue rest) :
    readExponent rest = some (none, rest) := by
  cases rest with
  | nil => rfl
  | cons c rest =>
    rcases h c rfl with rfl | rfl | rfl <;> rfl

theorem readNumber_digitTexts (n : Nat) {rest : List Char} (h : EndsValue rest) :
    readNumber false (Decimal.digitTexts n ++ rest) = some (.ofCount n, rest) := by
  have hdigits : ∀ c ∈ Decimal.digitTexts n, isDigit c = true :=
    fun _ => Decimal.isDigit_of_mem_digitTexts
  have hzero : ((Decimal.digitTexts n).head? == some '0' &&
      decide (1 < (Decimal.digitTexts n).length)) = false := by
    rcases Nat.eq_zero_or_pos n with rfl | hpos
    · decide
    · simp [Decimal.head?_digitTexts hpos]
  have hnonempty : (Decimal.digitTexts n).isEmpty = false := by simp [Decimal.digitTexts_ne_nil n]
  rw [readNumber]
  simp only [takeWhile_isDigit_append hdigits h.isDigit, dropWhile_isDigit_append hdigits h.isDigit,
    hzero, hnonempty]
  rw [if_neg (by decide)]
  split
  · rcases h '.' rfl with h | h | h <;> cases h
  · rw [readExponent_of_ends h]
    rfl

theorem isSpace_of_isDigit {d : Char} (hd : isDigit d = true) : isSpace d = false := by
  by_contra hspace
  simp only [isSpace, Bool.not_eq_false, Bool.or_eq_true, beq_iff_eq] at hspace
  rcases hspace with ((rfl | rfl) | rfl) | rfl <;> exact absurd hd (by decide)

theorem readValue_of_digit {d : Char} (hd : isDigit d = true) (fuel : Nat) (s : List Char) :
    readValue (fuel + 1) (d :: s) =
      (readNumber false (d :: s)).map fun (n, r) => (.number n, r) := by
  rw [readValue, skipSpace_cons (isSpace_of_isDigit hd)]
  split
  case h_8 => rfl
  all_goals
    rename_i heq
    cases heq
    exact absurd hd (by decide)

/-! Lists and records -/

section Steps

variable {fuel : Nat} {s s' rest : List Char} {t : JsonTree}

theorem readItemsOfList_last (h : readValue fuel s = some (t, ']' :: rest)) :
    readItemsOfList (fuel + 1) s = some ([t], rest) := by
  rw [readItemsOfList, h]
  rfl

theorem readItemsOfList_more {trees : List JsonTree} (h : readValue fuel s = some (t, ',' :: s'))
    (hrest : readItemsOfList fuel s' = some (trees, rest)) :
    readItemsOfList (fuel + 1) s = some (t :: trees, rest) := by
  have hcomma : skipSpace (',' :: s') = ',' :: s' := rfl
  rw [readItemsOfList, h]
  simp only [hcomma, hrest, Option.map_some]

theorem readFields_last {name : String} (h : readValue fuel s = some (t, '}' :: rest)) :
    readFields (fuel + 1) ('"' :: (name.toList.flatMap Json.escapedChar ++ '"' :: ':' :: s)) =
      some ([(some name, t)], rest) := by
  have hquote : ∀ s, skipSpace ('"' :: s) = '"' :: s := fun _ => rfl
  have hcolon : skipSpace (':' :: s) = ':' :: s := rfl
  have hbrace : skipSpace ('}' :: rest) = '}' :: rest := rfl
  rw [readFields, hquote]
  simp only [readText_flatMap, hcolon, h, hbrace]

theorem readFields_more {name : String} {trees : List (Option String × JsonTree)}
    (h : readValue fuel s = some (t, ',' :: s')) (hrest : readFields fuel s' = some (trees, rest)) :
    readFields (fuel + 1) ('"' :: (name.toList.flatMap Json.escapedChar ++ '"' :: ':' :: s)) =
      some ((some name, t) :: trees, rest) := by
  have hquote : ∀ s, skipSpace ('"' :: s) = '"' :: s := fun _ => rfl
  have hcolon : skipSpace (':' :: s) = ':' :: s := rfl
  have hcomma : skipSpace (',' :: s') = ',' :: s' := rfl
  rw [readFields, hquote]
  simp only [readText_flatMap, hcolon, h, hcomma, hrest, Option.map_some]

theorem readValue_of_bracket {c : Char} (hspace : isSpace c = false) (hclose : c ≠ ']') :
    readValue (fuel + 1) ('[' :: c :: s) =
      (readItemsOfList fuel (c :: s)).map fun (items, r) => (.list items, r) := by
  have hbracket : skipSpace ('[' :: c :: s) = '[' :: c :: s := rfl
  rw [readValue, hbracket]
  simp only [skipSpace_cons hspace]
  split
  · rename_i heq
    cases heq
    exact absurd rfl hclose
  · rfl

theorem readValue_of_quote :
    readValue (fuel + 1) ('"' :: s) = (readText s).map fun (t, r) => (.text t, r) := rfl

theorem readValue_of_brace :
    readValue (fuel + 1) ('{' :: '"' :: s) =
      (readFields fuel ('"' :: s)).map fun (fields, r) => (.record fields, r) :=
  rfl

end Steps

end JsonTree

namespace Json

/-! The tree that a value is read as. -/

mutual

inductive Spells : Json → JsonTree → Prop
  | null : Spells .null .null
  | bool (b : Bool) : Spells (.bool b) (.bool b)
  | count (n : Nat) : Spells (.count n) (.number (.ofCount n))
  | text (s : String) : Spells (.text s) (.text (some s))
  | list {items : List Json} {trees : List JsonTree} (h : SpellsItems items trees) :
      Spells (.list items) (.list trees)
  | record {fields : List (String × Json)} {trees : List (Option String × JsonTree)}
      (h : SpellsFields fields trees) :
    Spells (.record fields) (.record trees)

inductive SpellsItems : List Json → List JsonTree → Prop
  | nil : SpellsItems [] []
  | cons {j : Json} {t : JsonTree} {items : List Json} {trees : List JsonTree} (h : Spells j t)
    (hrest : SpellsItems items trees) : SpellsItems (j :: items) (t :: trees)

inductive SpellsFields : List (String × Json) → List (Option String × JsonTree) → Prop
  | nil : SpellsFields [] []
  | cons {name : String} {j : Json} {t : JsonTree} {fields : List (String × Json)}
    {trees : List (Option String × JsonTree)} (h : Spells j t) (hrest : SpellsFields fields trees) :
    SpellsFields ((name, j) :: fields) ((some name, t) :: trees)

end

/-! The texts of items and fields without their brackets. -/

def itemsText (items : List Json) : List Char := (Text.joined "," (compactItems items)).toList

def fieldsText (fields : List (String × Json)) : List Char :=
  (Text.joined "," (compactFields fields)).toList

def fieldText (name : String) (j : Json) : List Char :=
  '"' :: (name.toList.flatMap escapedChar ++ '"' :: ':' :: j.compact.toList)

theorem toList_compact_list (items : List Json) :
    (compact (.list items)).toList = '[' :: (itemsText items ++ [']']) := by
  simp [compact, itemsText]

theorem toList_compact_record (fields : List (String × Json)) :
    (compact (.record fields)).toList = '{' :: (fieldsText fields ++ ['}']) := by
  simp [compact, fieldsText]

theorem itemsText_singleton (j : Json) : itemsText [j] = j.compact.toList := by
  simp [itemsText, compactItems, Text.joined]

theorem itemsText_cons (j k : Json) (items : List Json) :
    itemsText (j :: k :: items) = j.compact.toList ++ ',' :: itemsText (k :: items) := by
  simp [itemsText, compactItems, Text.joined, String.toList_intercalate, List.intercalate]

theorem toList_compactField (name : String) (j : Json) :
    (quotedText name ++ ":" ++ j.compact).toList = fieldText name j := by
  simp [fieldText, JsonTree.toList_quotedText]

theorem fieldsText_singleton (name : String) (j : Json) :
    fieldsText [(name, j)] = fieldText name j := by
  rw [← toList_compactField]
  simp [fieldsText, compactFields, Text.joined]

theorem fieldsText_cons (name : String) (j : Json) (f : String × Json)
    (fields : List (String × Json)) :
    fieldsText ((name, j) :: f :: fields) =
      fieldText name j ++ ',' :: fieldsText (f :: fields) := by
  rw [← toList_compactField]
  simp [fieldsText, compactFields, Text.joined, String.toList_intercalate, List.intercalate]

theorem Spells.head {j : Json} {t : JsonTree} (h : Spells j t) :
    ∃ c s, j.compact.toList = c :: s ∧ JsonTree.isSpace c = false ∧ c ≠ ']' := by
  cases h with
  | null => exact ⟨_, _, rfl, rfl, by decide⟩
  | bool b => cases b <;> exact ⟨_, _, rfl, rfl, by decide⟩
  | text s => exact ⟨_, _, JsonTree.toList_quotedText s, rfl, by decide⟩
  | list => exact ⟨_, _, toList_compact_list _, rfl, by decide⟩
  | record => exact ⟨_, _, toList_compact_record _, rfl, by decide⟩
  | count n =>
    obtain ⟨d, ds, hdigits⟩ := List.exists_cons_of_ne_nil (Decimal.digitTexts_ne_nil n)
    have hd : isDigit d = true := Decimal.isDigit_of_mem_digitTexts (hdigits ▸ List.mem_cons_self)
    refine ⟨d, ds, ?_, JsonTree.isSpace_of_isDigit hd, ?_⟩
    · rw [compact, Decimal.toList_toString, hdigits]
    · rintro rfl
      exact absurd hd (by decide)

theorem SpellsItems.head {items : List Json} {trees : List JsonTree} (h : SpellsItems items trees)
    (hne : items ≠ []) :
    ∃ c s, itemsText items = c :: s ∧ JsonTree.isSpace c = false ∧ c ≠ ']' := by
  cases h with
  | nil => exact absurd rfl hne
  | cons h hitems =>
    obtain ⟨c, s, hs, hc⟩ := h.head
    cases hitems with
    | nil => exact ⟨c, s, by rw [itemsText_singleton, hs], hc⟩
    | cons hnext hitems => exact ⟨c, _, by rw [itemsText_cons, hs, List.cons_append], hc⟩

theorem SpellsFields.head {fields : List (String × Json)} {trees : List (Option String × JsonTree)}
    (h : SpellsFields fields trees) (hne : fields ≠ []) : ∃ s, fieldsText fields = '"' :: s := by
  cases h with
  | nil => exact absurd rfl hne
  | cons h hfields =>
    cases hfields with
    | nil => exact ⟨_, by rw [fieldsText_singleton, fieldText]⟩
    | cons hnext hfields => exact ⟨_, by rw [fieldsText_cons, fieldText, List.cons_append]⟩

theorem length_fieldText_lt (name : String) (j : Json) :
    j.compact.toList.length < (fieldText name j).length := by
  simp only [fieldText, List.length_cons, List.length_append]
  omega

theorem fieldText_append (name : String) (j : Json) (rest : List Char) : fieldText name j ++ rest =
    '"' :: (name.toList.flatMap escapedChar ++ '"' :: ':' :: (j.compact.toList ++ rest)) := by
  simp [fieldText]

open JsonTree

/-! Each kind of text is read before anything that may follow it, if there is fuel for its
length. -/

def ReadsValue (j : Json) (t : JsonTree) : Prop :=
  ∀ fuel rest, EndsValue rest → j.compact.toList.length < fuel →
  readValue fuel (j.compact.toList ++ rest) = some (t, rest)

def ReadsItems (items : List Json) (trees : List JsonTree) : Prop :=
  ∀ fuel rest, (itemsText items).length + 1 < fuel →
  readItemsOfList fuel (itemsText items ++ ']' :: rest) = some (trees, rest)

def ReadsFields (fields : List (String × Json)) (trees : List (Option String × JsonTree)) : Prop :=
  ∀ fuel rest, (fieldsText fields).length + 1 < fuel →
    readFields fuel (fieldsText fields ++ '}' :: rest) = some (trees, rest)

theorem readsValue_of_succ {j : Json} {t : JsonTree}
    (h : ∀ fuel rest, EndsValue rest → j.compact.toList.length < fuel + 1 →
      readValue (fuel + 1) (j.compact.toList ++ rest) = some (t, rest)) : ReadsValue j t := by
  intro fuel rest hrest hfuel
  obtain ⟨fuel, rfl⟩ := Nat.exists_eq_succ_of_ne_zero (Nat.ne_zero_of_lt hfuel)
  exact h fuel rest hrest hfuel

theorem readsValue_null : ReadsValue .null .null := readsValue_of_succ fun _ _ _ _ => rfl

theorem readsValue_bool (b : Bool) : ReadsValue (.bool b) (.bool b) := by
  refine readsValue_of_succ fun _ _ _ _ => ?_
  cases b <;> rfl

theorem readsValue_count (n : Nat) : ReadsValue (.count n) (.number (.ofCount n)) := by
  refine readsValue_of_succ fun fuel rest hrest _ => ?_
  obtain ⟨d, ds, hdigits⟩ := List.exists_cons_of_ne_nil (Decimal.digitTexts_ne_nil n)
  have hd : isDigit d = true := Decimal.isDigit_of_mem_digitTexts (hdigits ▸ List.mem_cons_self)
  rw [compact, Decimal.toList_toString, hdigits, List.cons_append, readValue_of_digit hd,
    ← List.cons_append, ← hdigits, readNumber_digitTexts n hrest]
  rfl

theorem readsValue_text (s : String) : ReadsValue (.text s) (.text (some s)) := by
  refine readsValue_of_succ fun fuel rest _ _ => ?_
  rw [compact, toList_quotedText, List.cons_append, List.append_assoc, List.singleton_append,
    readValue_of_quote, readText_flatMap]
  rfl

theorem readsItems_singleton {j : Json} {t : JsonTree} (h : ReadsValue j t) :
    ReadsItems [j] [t] := by
  intro fuel rest hfuel
  obtain ⟨fuel, rfl⟩ := Nat.exists_eq_succ_of_ne_zero (Nat.ne_zero_of_lt hfuel)
  rw [itemsText_singleton] at hfuel ⊢
  exact readItemsOfList_last (h fuel (']' :: rest) (.cons (by decide) rest) (by omega))

theorem readsItems_cons {j k : Json} {t : JsonTree} {items : List Json} {trees : List JsonTree}
    (h : ReadsValue j t) (hrest : ReadsItems (k :: items) trees) :
    ReadsItems (j :: k :: items) (t :: trees) := by
  intro fuel rest hfuel
  obtain ⟨fuel, rfl⟩ := Nat.exists_eq_succ_of_ne_zero (Nat.ne_zero_of_lt hfuel)
  rw [itemsText_cons, List.length_append, List.length_cons] at hfuel
  rw [itemsText_cons, List.append_assoc, List.cons_append]
  exact readItemsOfList_more (h fuel _ (.cons (by decide) _) (by omega))
    (hrest fuel rest (by omega))

theorem readsFields_singleton {name : String} {j : Json} {t : JsonTree} (h : ReadsValue j t) :
    ReadsFields [(name, j)] [(some name, t)] := by
  intro fuel rest hfuel
  obtain ⟨fuel, rfl⟩ := Nat.exists_eq_succ_of_ne_zero (Nat.ne_zero_of_lt hfuel)
  rw [fieldsText_singleton] at hfuel ⊢
  have hlength := length_fieldText_lt name j
  rw [fieldText_append]
  exact readFields_last (h fuel ('}' :: rest) (.cons (by decide) rest) (by omega))

theorem readsFields_cons {name : String} {j : Json} {t : JsonTree} {f : String × Json}
    {fields : List (String × Json)} {trees : List (Option String × JsonTree)} (h : ReadsValue j t)
    (hrest : ReadsFields (f :: fields) trees) :
    ReadsFields ((name, j) :: f :: fields) ((some name, t) :: trees) := by
  intro fuel rest hfuel
  obtain ⟨fuel, rfl⟩ := Nat.exists_eq_succ_of_ne_zero (Nat.ne_zero_of_lt hfuel)
  rw [fieldsText_cons, List.length_append, List.length_cons] at hfuel
  have hlength := length_fieldText_lt name j
  rw [fieldsText_cons, List.append_assoc, List.cons_append, fieldText_append]
  exact readFields_more (h fuel _ (.cons (by decide) _) (by omega)) (hrest fuel rest (by omega))

theorem readsValue_list {items : List Json} {trees : List JsonTree} (h : SpellsItems items trees)
    (hread : items ≠ [] → ReadsItems items trees) : ReadsValue (.list items) (.list trees) := by
  refine readsValue_of_succ fun fuel rest _ hfuel => ?_
  rw [toList_compact_list, List.cons_append, List.append_assoc, List.singleton_append]
  rw [toList_compact_list, List.length_cons, List.length_append, List.length_singleton] at hfuel
  by_cases hempty : items = []
  · subst hempty
    cases h
    rfl
  · have hlist := hread hempty fuel rest (by omega)
    obtain ⟨c, s, hs, hspace, hclose⟩ := h.head hempty
    rw [hs, List.cons_append] at hlist ⊢
    rw [readValue_of_bracket hspace hclose, hlist]
    rfl

theorem readsValue_record {fields : List (String × Json)} {trees : List (Option String × JsonTree)}
    (h : SpellsFields fields trees) (hread : fields ≠ [] → ReadsFields fields trees) :
    ReadsValue (.record fields) (.record trees) := by
  refine readsValue_of_succ fun fuel rest _ hfuel => ?_
  rw [toList_compact_record, List.cons_append, List.append_assoc, List.singleton_append]
  rw [toList_compact_record, List.length_cons, List.length_append, List.length_singleton] at hfuel
  by_cases hempty : fields = []
  · subst hempty
    cases h
    rfl
  · have hrecord := hread hempty fuel rest (by omega)
    obtain ⟨s, hs⟩ := h.head hempty
    rw [hs, List.cons_append] at hrecord ⊢
    rw [readValue_of_brace, hrecord]
    rfl

mutual

theorem Spells.reads {j : Json} {t : JsonTree} : Spells j t → ReadsValue j t
  | .null => readsValue_null
  | .bool b => readsValue_bool b
  | .count n => readsValue_count n
  | .text s => readsValue_text s
  | .list h => readsValue_list h h.reads
  | .record h => readsValue_record h h.reads

theorem SpellsItems.reads {items : List Json} {trees : List JsonTree} :
    SpellsItems items trees → items ≠ [] → ReadsItems items trees
  | .nil => fun hne => absurd rfl hne
  | .cons h hitems => fun _ => by
    have hvalue := h.reads
    have hrest := hitems.reads
    cases hitems with
    | nil => exact readsItems_singleton hvalue
    | cons _ _ => exact readsItems_cons hvalue (hrest (List.cons_ne_nil _ _))

theorem SpellsFields.reads {fields : List (String × Json)}
    {trees : List (Option String × JsonTree)} :
    SpellsFields fields trees → fields ≠ [] → ReadsFields fields trees
  | .nil => fun hne => absurd rfl hne
  | .cons h hfields => fun _ => by
    have hvalue := h.reads
    have hrest := hfields.reads
    cases hfields with
    | nil => exact readsFields_singleton hvalue
    | cons _ _ => exact readsFields_cons hvalue (hrest (List.cons_ne_nil _ _))

end

theorem Spells.read?_compact {j : Json} {t : JsonTree} (h : Spells j t) :
    read? j.compact = some t := by
  have hread := h.reads (j.compact.toList.length + 1) [] .nil (Nat.lt_succ_self _)
  rw [List.append_nil] at hread
  rw [read?]
  simp only [hread]
  rfl

end Json

end NoiseTimeline
