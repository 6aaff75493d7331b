import NoiseTimeline.Proofs.Number.ReadBack
import NoiseTimeline.Proofs.Text.Lines
import NoiseTimeline.TimelineCsv

/-! A written timeline reads back as itself, whatever the order of its samples,
as long as no probability is NaN. -/

namespace NoiseTimeline

/-- The clock counter holds the cycle and the probability is a number. -/
def Sample.IsStorable (s : Sample) : Prop := s.clockCycle < wordLimit ∧ s.probability.isNaN = false

namespace Binary64

theorem isBlank_of_mem_text {x : Binary64} {c : Char} (h : c ∈ x.text) :
    Text.isBlank c = false := by
  rcases mem_text h with h | h
  · exact Text.isBlank_of_isDigit h
  · have hmarks : ∀ c ∈ ['-', '.', 'i', 'n', 'f', 'N', 'a'], Text.isBlank c = false := by
      simp [Text.isBlank]
    exact hmarks c h

end Binary64

namespace TimelineCsv

def rowText (s : Sample) : List Char := Decimal.digitTexts s.clockCycle ++ ',' :: s.probability.text

theorem toList_row (s : Sample) : (row s).toList = rowText s ++ ['\r', '\n'] := by
  simp [row, rowText, Binary64.toText, Decimal.digitTexts]

theorem isBlank_of_mem_rowText {s : Sample} {c : Char} (h : c ∈ rowText s) :
    Text.isBlank c = false := by
  rcases List.mem_append.mp h with h | h
  · exact Text.isBlank_of_isDigit (Decimal.isDigit_of_mem_digitTexts h)
  · rcases List.mem_cons.mp h with rfl | h
    · decide
    · exact Binary64.isBlank_of_mem_text h

theorem newline_not_mem_rowText (s : Sample) : '\n' ∉ rowText s := by
  intro h
  exact absurd (isBlank_of_mem_rowText h) (by decide)

theorem comma_not_mem_digitTexts (n : Nat) : ',' ∉ Decimal.digitTexts n := by
  intro h
  exact absurd (Decimal.isDigit_of_mem_digitTexts h) (by decide)

theorem fields?_append {a b : List Char} (ha : ',' ∉ a) :
    fields? (a ++ ',' :: b) = some (a, b) := by
  have hpos : ∀ c ∈ a, (c != ',') = true := by
    intro c hc
    simp only [bne_iff_ne, ne_eq]
    rintro rfl
    exact ha hc
  have hdrop : (a ++ ',' :: b).dropWhile (· != ',') = ',' :: b := by
    rw [List.dropWhile_append_of_pos hpos, List.dropWhile_cons_of_neg (by decide)]
  have htake : (a ++ ',' :: b).takeWhile (· != ',') = a := by
    rw [List.takeWhile_append_of_pos hpos, List.takeWhile_cons_of_neg (by decide), List.append_nil]
  rw [fields?, hdrop, htake]

theorem readRow_rowText {s : Sample} (h : s.IsStorable) : readRow (rowText s) = .ok s := by
  have hcycle : Text.trim (Decimal.digitTexts s.clockCycle) = Decimal.digitTexts s.clockCycle :=
    Text.trim_of_no_blank fun c hc => Text.isBlank_of_isDigit (Decimal.isDigit_of_mem_digitTexts hc)
  have hprobability : Text.trim s.probability.text = s.probability.text :=
    Text.trim_of_no_blank fun c hc => Binary64.isBlank_of_mem_text hc
  rw [readRow, rowText, fields?_append (comma_not_mem_digitTexts _)]
  simp only [hcycle, hprobability, readCount_digitTexts h.1, Binary64.readReal_text h.2]

theorem readRows_rowTexts {t : Timeline} (h : ∀ s ∈ t, s.IsStorable) (line : Nat) :
    readRows line (t.map rowText) = .ok t := by
  induction t generalizing line with
  | nil => rfl
  | cons s t ih =>
    have hs := h s List.mem_cons_self
    have ht := ih (fun x hx => h x (List.mem_cons_of_mem _ hx)) (line + 1)
    have htrim : Text.trim (rowText s) = rowText s :=
      Text.trim_of_no_blank fun c hc => isBlank_of_mem_rowText hc
    have hne : (rowText s).isEmpty = false := by simp [rowText]
    rw [List.map_cons, readRows]
    simp only [htrim, hne, readRow_rowText hs, ht]
    rfl

theorem lines_rows (t : Timeline) :
    Text.lines (t.flatMap fun s => rowText s ++ ['\r', '\n']) = t.map rowText := by
  induction t with
  | nil => rfl
  | cons s t ih =>
    rw [List.flatMap_cons, List.append_assoc, List.map_cons, ← ih]
    exact Text.lines_append_crlf (newline_not_mem_rowText s) _

theorem toList_write (t : Timeline) :
    (write t).toList = header.toList ++ '\r' :: '\n' :: t.flatMap fun s =>
      rowText s ++ ['\r', '\n'] := by
  have hrows : (t.map row).flatMap String.toList =
      t.flatMap fun s => rowText s ++ ['\r', '\n'] := by
    rw [List.flatMap_map]
    exact congrArg (t.flatMap ·) (funext toList_row)
  rw [write, String.toList_join, List.flatMap_cons, hrows, String.toList_append, List.append_assoc]
  rfl

theorem parse_write {t : Timeline} (h : ∀ s ∈ t, s.IsStorable) : parse (write t) = .ok t := by
  have hheader : Text.trim header.toList = header.toList := by decide
  rw [parse, toList_write, Text.lines_append_crlf (by decide), lines_rows]
  simp only [hheader, ↓reduceIte]
  exact readRows_rowTexts h 2

theorem readRow_clockCycle_lt {line : List Char} {s : Sample} (h : readRow line = .ok s) :
    s.clockCycle < wordLimit := by
  unfold readRow at h
  split at h
  · cases h
  · dsimp only at h
    split at h
    · cases h
    · rename_i hcount
      split at h
      · cases h
      · cases h
        exact readCount_lt (by decide) hcount

theorem readRows_clockCycle_lt {line : Nat} {rows : List (List Char)} {t : Timeline}
    (h : readRows line rows = .ok t) : ∀ s ∈ t, s.clockCycle < wordLimit := by
  induction rows generalizing line t with
  | nil =>
    cases h
    simp
  | cons r rows ih =>
    rw [readRows] at h
    split at h
    · exact ih h
    · split at h
      · cases h
      · rename_i s hrow
        cases hrest : readRows (line + 1) rows with
        | error e =>
          rw [hrest] at h
          cases h
        | ok rest =>
          rw [hrest] at h
          cases h
          intro x hx
          rcases List.mem_cons.mp hx with rfl | hx
          · exact readRow_clockCycle_lt hrow
          · exact ih hrest x hx

theorem parse_clockCycle_lt {text : String} {t : Timeline} (h : parse text = .ok t) :
    ∀ s ∈ t, s.clockCycle < wordLimit := by
  unfold parse at h
  split at h
  · cases h
  · dsimp only at h
    split at h
    · exact readRows_clockCycle_lt h
    · cases h

end TimelineCsv

end NoiseTimeline
