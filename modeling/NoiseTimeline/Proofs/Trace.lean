import NoiseTimeline.Proofs.Trace.Grammar

/-! Results as a checker prints them, a header and a value for each clock cycle.
Reading them gives one sample for each. -/

namespace NoiseTimeline.Trace

open Text

/-- The two lines on one clock cycle. -/
def blockText (x : Sample) : String :=
  s!"+ Property P_{x.clockCycle}\n  Estimated probability: {x.probability.toText}\n"

def resultsText (xs : List Sample) : String := String.join (xs.map blockText)

def cycleName (n : Nat) : List Char := "P_".toList ++ Decimal.digitTexts n

def headerLine (n : Nat) : List Char := '+' :: ' ' :: ("Property ".toList ++ cycleName n)

def estimate (p : Binary64) : List Char := "Estimated probability:".toList ++ ' ' :: p.text

theorem toList_blockText (x : Sample) :
    (blockText x).toList = headerLine x.clockCycle ++ '\n' ::
      (' ' :: ' ' :: estimate x.probability ++ ['\n']) := by
  have hfirst : "+ Property P_".toList = '+' :: ' ' :: ("Property ".toList ++ "P_".toList) := by
    decide
  have hmiddle : "\n  Estimated probability: ".toList =
      '\n' :: ' ' :: ' ' :: ("Estimated probability:".toList ++ [' ']) := by decide
  have hlast : "\n".toList = ['\n'] := by decide
  have hprobability : x.probability.toText.toList = x.probability.text := String.toList_ofList
  unfold blockText headerLine cycleName estimate
  simp only [Text.toString_self, String.toList_append]
  rw [Decimal.toList_toString x.clockCycle, hprobability, hfirst, hmiddle, hlast]
  simp only [List.append_assoc, List.cons_append, List.nil_append]

theorem newline_not_mem_headerLine (n : Nat) : '\n' ∉ headerLine n := by
  have hword : '\n' ∉ '+' :: ' ' :: ("Property ".toList ++ "P_".toList) := by decide
  intro h
  unfold headerLine cycleName at h
  rw [← List.append_assoc, ← List.cons_append, ← List.cons_append, List.mem_append] at h
  rcases h with h | h
  · exact hword h
  · exact absurd (Decimal.isDigit_of_mem_digitTexts h) (by decide)

theorem newline_not_mem_estimate (p : Binary64) : '\n' ∉ ' ' :: ' ' :: estimate p := by
  have hword : '\n' ∉ ' ' :: ' ' :: ("Estimated probability:".toList ++ [' ']) := by decide
  intro h
  unfold estimate at h
  rw [List.append_cons, ← List.cons_append, ← List.cons_append, List.mem_append] at h
  rcases h with h | h
  · exact hword h
  · exact absurd (Binary64.isBlank_of_mem_text h) (by decide)

def resultHeader : HeaderStyle := { lead := ['+', ' '], stem := "P_".toList }

def resultValue : ValueStyle := { indent := [' ', ' '], estimated := true }

theorem resultHeader_line (n : Nat) : resultHeader.line n = headerLine n := by
  simp [HeaderStyle.line, HeaderStyle.label, HeaderStyle.name, resultHeader, headerLine, cycleName]

theorem resultValue_line (p : Binary64) : resultValue.line p = ' ' :: ' ' :: estimate p := by
  have hword : valueWord true = "Estimated probability:".toList := if_pos rfl
  have hremark : p.text ++ resultValue.remark = p.text := List.append_nil p.text
  unfold ValueStyle.line estimate
  rw [hremark, ← hword]
  rfl

def resultLines (xs : List Sample) : List (List Char) :=
  xs.flatMap fun x => [headerLine x.clockCycle, ' ' :: ' ' :: estimate x.probability]

theorem resultLines_cons (x : Sample) (xs : List Sample) :
    resultLines (x :: xs) = headerLine x.clockCycle :: (' ' :: ' ' :: estimate x.probability) ::
      resultLines xs := rfl

theorem prints_resultLines (xs : List Sample) : Prints none xs (resultLines xs) := by
  induction xs with
  | nil => exact .nil
  | cons x xs ih =>
    rw [resultLines_cons, ← resultHeader_line, ← resultValue_line]
    exact .header resultHeader (.value resultValue ih)

theorem laidOut_resultsText (xs : List Sample) :
    LaidOut (resultLines xs) (resultsText xs).toList := by
  rw [resultsText, String.toList_join, List.flatMap_map]
  induction xs with
  | nil => exact .nil
  | cons x xs ih =>
    rw [resultLines_cons, List.flatMap_cons, toList_blockText, List.append_assoc, List.cons_append,
      List.append_assoc, List.singleton_append]
    exact .lf (newline_not_mem_headerLine x.clockCycle)
      (.lf (newline_not_mem_estimate x.probability) ih)

theorem parse_resultsText {xs : List Sample} (hne : xs ≠ []) (h : ∀ x ∈ xs, IsResult x)
    (hsorted : xs.Pairwise fun x y => x.clockCycle ≤ y.clockCycle) :
    parse (resultsText xs) = .ok xs := by
  rw [parse_of_prints hne h (prints_resultLines xs) (laidOut_resultsText xs),
    byClockCycle_of_ascending hsorted]

theorem parse_of_find? {α : Type} {results : α → List Sample} {known : List α} {a : α}
    {trace : String} (hknown : ∀ a ∈ known, results a ≠ [] ∧ (∀ x ∈ results a, IsResult x) ∧
      (results a).Pairwise fun x y => x.clockCycle ≤ y.clockCycle)
    (hfind : known.find? (fun a => resultsText (results a) = trace) = some a) :
    parse trace = .ok (results a) := by
  have htrace : resultsText (results a) = trace := by simpa using List.find?_some hfind
  obtain ⟨hne, hresults, hascending⟩ := hknown a (List.mem_of_find?_eq_some hfind)
  rw [← htrace, parse_resultsText hne hresults hascending]

end NoiseTimeline.Trace
