import NoiseTimeline.Proofs.Number.Spelling
import NoiseTimeline.Proofs.Text.Seam
import NoiseTimeline.Proofs.TimelineCsv
import NoiseTimeline.Proofs.Traversal

/-! Which texts are read as timelines, and where the others fail. Each row that is not blank is read
by itself, and the first that cannot be read gives the error its line. -/

namespace NoiseTimeline.TimelineCsv

/-- A clock cycle before the first comma and a probability after it, with blanks around them or
not. -/
inductive ReadsAs : List Char → Sample → Prop
  | fields {cycle probability : List Char} {n : Nat} {p : Binary64} (hcomma : ',' ∉ cycle)
      (hcycle : SpellsCount wordLimit (Text.trim cycle) n)
        (hprobability : SpellsReal (Text.trim probability) p) :
      ReadsAs (cycle ++ ',' :: probability) ⟨n, p⟩

/-- What is wrong with a row; of two bad fields the clock cycle is named. -/
inductive Fails : List Char → String → Prop
  | noComma {row : List Char} (hcomma : ',' ∉ row) : Fails row "expected two columns"
  | badCycle {cycle probability : List Char} {e : CountError} (hcomma : ',' ∉ cycle)
      (hcycle : readCount wordLimit (Text.trim cycle) = .error e) :
      Fails (cycle ++ ',' :: probability)
        s!"bad clock cycle '{String.ofList (Text.trim cycle)}': {e.message}"
  | badProbability {cycle probability : List Char} {n : Nat} {e : RealError} (hcomma : ',' ∉ cycle)
      (hcycle : SpellsCount wordLimit (Text.trim cycle) n)
        (hprobability : readReal (Text.trim probability) = .error e) :
      Fails (cycle ++ ',' :: probability)
        s!"bad probability '{String.ofList (Text.trim probability)}': {e.message}"

/-- What a text comes to, told from its lines. -/
inductive Verdict : List (List Char) → Except MalformedCsv Timeline → Prop
  | read {first : List Char} {rows : List (List Char)} {t : Timeline}
      (hfirst : Text.trim first = header.toList)
      (hrows : List.Forall₂ ReadsAs (Text.filled rows) t) : Verdict (first :: rows) (.ok t)
  | empty : Verdict [] (.error ⟨1, "empty file"⟩)
  | wrongHeader {first : List Char} {rows : List (List Char)}
      (hfirst : Text.trim first ≠ header.toList) :
      Verdict (first :: rows)
        (.error ⟨1, s!"unexpected header '{String.ofList (Text.trim first)}'"⟩)
  | badRow {first row : List Char} {before after : List (List Char)} {message : String}
      (hfirst : Text.trim first = header.toList)
        (hbefore : ∀ r ∈ Text.filled before, ∃ s, ReadsAs r s)
      (hfilled : Text.trim row ≠ []) (hrow : Fails (Text.trim row) message) :
      Verdict (first :: (before ++ row :: after)) (.error ⟨before.length + 2, message⟩)

variable {row a b : List Char} {rows : List (List Char)} {line : Nat} {t : Timeline} {x : Sample}
  {e : MalformedCsv} {message : String} {text text' : String}

theorem fields?_eq_none (h : ',' ∉ row) : fields? row = none := by
  have hdrop : row.dropWhile (· != ',') = [] := by
    rw [List.dropWhile_eq_nil_iff]
    intro c hc
    rw [bne_iff_ne]
    rintro rfl
    exact h hc
  rw [fields?, hdrop]

theorem readRow_fields (h : ',' ∉ a) (b : List Char) : readRow (a ++ ',' :: b) =
    match readCount wordLimit (Text.trim a) with
    | .error e => .error s!"bad clock cycle '{String.ofList (Text.trim a)}': {e.message}"
    | .ok n =>
      match readReal (Text.trim b) with
      | .error e => .error s!"bad probability '{String.ofList (Text.trim b)}': {e.message}"
      | .ok p => .ok ⟨n, p⟩ := by
  unfold readRow
  generalize hrow : fields? (a ++ ',' :: b) = fields
  obtain rfl : some (a, b) = fields := (fields?_append h).symm.trans hrow
  rfl

theorem readRow_eq_iff {r : Except String Sample} : readRow row = r ↔
    match r with
    | .ok x => ReadsAs row x
    | .error message => Fails row message := by
  constructor
  · rintro rfl
    by_cases hcomma : ',' ∈ row
    · obtain ⟨cycle, probability, rfl, hcycle⟩ := List.eq_append_cons_of_mem hcomma
      rw [readRow_fields hcycle]
      cases hcount : readCount wordLimit (Text.trim cycle) with
      | error e => exact .badCycle hcycle hcount
      | ok n =>
        cases hreal : readReal (Text.trim probability) with
        | error e => exact .badProbability hcycle (readCount_eq_ok_iff.mp hcount) hreal
        | ok p => exact .fields hcycle (readCount_eq_ok_iff.mp hcount) (readReal_eq_ok_iff.mp hreal)
    · rw [readRow, fields?_eq_none hcomma]
      exact .noComma hcomma
  · intro h
    cases r with
    | ok x =>
      obtain ⟨hcomma, hcycle, hprobability⟩ := h
      rw [readRow_fields hcomma, readCount_eq_ok_iff.mpr hcycle,
        readReal_eq_ok_iff.mpr hprobability]
    | error message =>
      rcases h with hcomma | ⟨hcomma, hcycle⟩ | ⟨hcomma, hcycle, hprobability⟩
      · rw [readRow, fields?_eq_none hcomma]
      · rw [readRow_fields hcomma, hcycle]
      · rw [readRow_fields hcomma, readCount_eq_ok_iff.mpr hcycle, hprobability]

theorem readRow_eq_ok_iff : readRow row = .ok x ↔ ReadsAs row x := readRow_eq_iff

theorem readRow_eq_error_iff : readRow row = .error message ↔ Fails row message := readRow_eq_iff

theorem exists_fails_iff : (∃ message, Fails row message) ↔ ¬∃ x, ReadsAs row x := by
  simp only [← readRow_eq_error_iff, ← readRow_eq_ok_iff]
  cases readRow row <;> simp

theorem readRows_cons_blank (h : Text.trim row = []) :
    readRows line (row :: rows) = readRows (line + 1) rows := by
  rw [readRows, h]
  rfl

theorem readRows_cons (h : Text.trim row ≠ []) : readRows line (row :: rows) =
    match readRow (Text.trim row) with
    | .error message => .error ⟨line, message⟩
    | .ok x => (readRows (line + 1) rows).map (x :: ·) := by
  have hfilled : (Text.trim row).isEmpty = false := by simpa using h
  rw [readRows, hfilled]
  rfl

theorem map_cons_eq_ok_iff {r : Except MalformedCsv Timeline} :
    r.map (x :: ·) = .ok t ↔ ∃ xs, r = .ok xs ∧ x :: xs = t := by
  cases r <;> simp [Except.map]

theorem map_cons_eq_error_iff {r : Except MalformedCsv Timeline} :
    r.map (x :: ·) = .error e ↔ r = .error e := by
  cases r <;> simp [Except.map]

theorem readRows_eq_ok_iff :
    readRows line rows = .ok t ↔ List.Forall₂ ReadsAs (Text.filled rows) t := by
  induction rows generalizing line t with
  | nil => simp [readRows, Text.filled, eq_comm]
  | cons row rows ih =>
    by_cases hrow : Text.trim row = []
    · rw [readRows_cons_blank hrow, Text.filled_cons_of_trim_eq_nil hrow, ih]
    · rw [readRows_cons hrow, Text.filled_cons_of_trim_ne_nil hrow, List.forall₂_cons_left_iff]
      cases hread : readRow (Text.trim row) with
      | error message =>
        constructor
        · rintro ⟨⟩
        · rintro ⟨x, xs, hx, -, -⟩
          rw [readRow_eq_ok_iff.mpr hx] at hread
          cases hread
      | ok x =>
        simp only [map_cons_eq_ok_iff, ih]
        constructor
        · rintro ⟨xs, hxs, rfl⟩
          exact ⟨x, xs, readRow_eq_iff.mp hread, hxs, rfl⟩
        · rintro ⟨y, ys, hy, hys, rfl⟩
          rw [readRow_eq_ok_iff.mpr hy] at hread
          obtain rfl := Except.ok.inj hread
          exact ⟨ys, hys, rfl⟩

theorem readRows_of_error (h : readRows line rows = .error e) :
    ∃ before row after, rows = before ++ row :: after ∧
      (∀ r ∈ Text.filled before, ∃ x, ReadsAs r x) ∧
      Text.trim row ≠ [] ∧ Fails (Text.trim row) e.message ∧ e.line = line + before.length := by
  induction rows generalizing line with
  | nil => cases h
  | cons row rows ih =>
    by_cases hrow : Text.trim row = []
    · rw [readRows_cons_blank hrow] at h
      obtain ⟨before, bad, after, rfl, hbefore, hfilled, hbad, hline⟩ := ih h
      refine ⟨row :: before, bad, after, rfl, ?_, hfilled, hbad, ?_⟩
      · rwa [Text.filled_cons_of_trim_eq_nil hrow]
      · rw [hline, List.length_cons]
        omega
    · rw [readRows_cons hrow] at h
      cases hread : readRow (Text.trim row) with
      | error message =>
        rw [hread] at h
        cases h
        exact ⟨[], row, rows, rfl, by simp [Text.filled], hrow, readRow_eq_error_iff.mp hread, rfl⟩
      | ok x =>
        rw [hread] at h
        obtain ⟨before, bad, after, rfl, hbefore, hfilled, hbad, hline⟩ :=
          ih (map_cons_eq_error_iff.mp h)
        refine ⟨row :: before, bad, after, rfl, ?_, hfilled, hbad, ?_⟩
        · rw [Text.filled_cons_of_trim_ne_nil hrow]
          exact List.forall_mem_cons.mpr ⟨⟨x, readRow_eq_ok_iff.mp hread⟩, hbefore⟩
        · rw [hline, List.length_cons]
          omega

/-- The error is that of the first row that cannot be read, and blank rows count as lines. -/
theorem readRows_of_fails {before after : List (List Char)}
    (hbefore : ∀ r ∈ Text.filled before, ∃ x, ReadsAs r x) (hfilled : Text.trim row ≠ [])
    (hrow : Fails (Text.trim row) message) :
    readRows line (before ++ row :: after) = .error ⟨line + before.length, message⟩ := by
  induction before generalizing line with
  | nil =>
    rw [List.nil_append, readRows_cons hfilled, readRow_eq_error_iff.mpr hrow]
    rfl
  | cons r before ih =>
    have hline : line + 1 + before.length = line + (r :: before).length := by
      rw [List.length_cons]
      omega
    rw [List.cons_append]
    by_cases hr : Text.trim r = []
    · rw [Text.filled_cons_of_trim_eq_nil hr] at hbefore
      rw [readRows_cons_blank hr, ih hbefore, hline]
    · rw [Text.filled_cons_of_trim_ne_nil hr] at hbefore
      obtain ⟨⟨x, hx⟩, hbefore⟩ := List.forall_mem_cons.mp hbefore
      rw [readRows_cons hr, readRow_eq_ok_iff.mpr hx]
      dsimp only
      rw [ih hbefore, hline]
      rfl

theorem parse_eq_iff {r : Except MalformedCsv Timeline} :
    parse text = r ↔ Verdict (Text.lines text.toList) r := by
  rw [parse]
  cases Text.lines text.toList with
  | nil =>
    constructor
    · rintro rfl
      exact .empty
    · rintro ⟨⟩
      rfl
  | cons first rows =>
    dsimp only
    by_cases hfirst : Text.trim first = header.toList
    · rw [if_pos hfirst]
      constructor
      · rintro rfl
        cases hrows : readRows 2 rows with
        | ok t => exact .read hfirst (readRows_eq_ok_iff.mp hrows)
        | error e =>
          obtain ⟨before, row, after, rfl, hbefore, hfilled, hrow, hline⟩ := readRows_of_error hrows
          obtain ⟨line, message⟩ := e
          obtain rfl : line = before.length + 2 := hline.trans (Nat.add_comm _ _)
          exact .badRow hfirst hbefore hfilled hrow
      · rintro (⟨-, hrows⟩ | _ | hother | ⟨-, hbefore, hfilled, hrow⟩)
        · exact readRows_eq_ok_iff.mpr hrows
        · exact absurd hfirst hother
        · rw [readRows_of_fails hbefore hfilled hrow, Nat.add_comm]
    · rw [if_neg hfirst]
      constructor
      · rintro rfl
        exact .wrongHeader hfirst
      · rintro (⟨hheader, -⟩ | _ | - | ⟨hheader, -⟩)
        · exact absurd hheader hfirst
        · rfl
        · exact absurd hheader hfirst

theorem exists_parse_eq_ok_iff :
    (∃ t, parse text = .ok t) ↔ ∃ first rows, Text.lines text.toList = first :: rows ∧
    Text.trim first = header.toList ∧ ∀ row ∈ rows, Text.trim row ≠ [] →
    ∃ x, ReadsAs (Text.trim row) x := by
  have hfilled : ∀ rows : List (List Char), (∃ t, List.Forall₂ ReadsAs (Text.filled rows) t) ↔
      ∀ row ∈ rows, Text.trim row ≠ [] → ∃ x, ReadsAs (Text.trim row) x := by
    intro rows
    rw [exists_forall₂_iff]
    simp [Text.filled]
  simp only [parse_eq_iff]
  constructor
  · rintro ⟨t, h⟩
    generalize Text.lines text.toList = ls at h ⊢
    obtain ⟨hfirst, hrows⟩ := h
    exact ⟨_, _, rfl, hfirst, (hfilled _).mp ⟨t, hrows⟩⟩
  · rintro ⟨first, rows, hlines, hfirst, hrows⟩
    obtain ⟨t, ht⟩ := (hfilled rows).mpr hrows
    rw [hlines]
    exact ⟨t, .read hfirst ht⟩

/-- What stands after the line of the error is not looked at. -/
theorem parse_eq_error_of_take (h : parse text = .error e)
    (htake : (Text.lines text'.toList).take e.line = (Text.lines text.toList).take e.line) :
    parse text' = .error e := by
  rw [parse_eq_iff] at h ⊢
  generalize Text.lines text.toList = ls at h htake
  rcases h with _ | _ | hother | ⟨hfirst, hbefore, hfilled, hrow⟩
  · rw [List.take_nil, List.take_eq_nil_iff] at htake
    rw [htake.resolve_left (by decide)]
    exact .empty
  · rename_i first rows
    rw [List.take_succ_cons, List.take_zero] at htake
    cases hlines : Text.lines text'.toList with
    | nil =>
      rw [hlines] at htake
      cases htake
    | cons first' rows' =>
      rw [hlines, List.take_succ_cons, List.take_zero] at htake
      rw [List.singleton_inj.mp htake]
      exact .wrongHeader hother
  · rename_i first row before after message
    have hprefix : first :: (before ++ [row]) <+: Text.lines text'.toList := by
      have hshown : (first :: (before ++ row :: after)).take (before.length + 2) =
          first :: (before ++ [row]) := by
        rw [List.take_succ_cons, List.take_length_add_append]
        rfl
      rw [← hshown, ← htake]
      exact List.take_prefix _ _
    obtain ⟨after', hafter⟩ := hprefix
    rw [← hafter, List.cons_append, List.append_assoc, List.singleton_append]
    exact .badRow hfirst hbefore hfilled hrow

end NoiseTimeline.TimelineCsv
