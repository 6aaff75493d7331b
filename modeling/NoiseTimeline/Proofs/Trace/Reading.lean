import NoiseTimeline.Proofs.Text.Seam
import NoiseTimeline.Proofs.Trace.Grammar

/-! Reading a trace, apart from the line numbers that only errors show. What is read
splits where the trace is split, and lines of noise can be left out. -/

namespace NoiseTimeline.Trace

open Text

/-- The header that waits after a line. -/
def LineKind.waiting (w : Option OpenHeader) : LineKind → Option OpenHeader
  | .noise => w
  | .header name => OpenHeader.ofName? name
  | .value _ => none

/-- The samples that a line completes, unless it cannot be read where this header waits. -/
def LineKind.completes (w : Option OpenHeader) : LineKind → Option (List Sample)
  | .noise => some []
  | .header _ => if w.isNone then some [] else none
  | .value text =>
    match w with
    | none => some []
    | some h => (h.sample 0 text).toOption.map fun x => [x]

def waitingAfter (w : Option OpenHeader) (ks : List LineKind) : Option OpenHeader :=
  ks.foldl LineKind.waiting w

def reading (w : Option OpenHeader) : List LineKind → Option (List Sample)
  | [] => some []
  | k :: ks => (k.completes w).bind fun xs => (reading (k.waiting w) ks).map (xs ++ ·)

variable {w : Option OpenHeader} {ks : List LineKind} {xs : List Sample}

theorem toOption_sample (h : OpenHeader) (text : List Char) (line : Nat) :
    (h.sample line text).toOption = (h.sample 0 text).toOption := by
  rw [OpenHeader.sample, OpenHeader.sample]
  cases readReal text with
  | error e => rfl
  | ok p => rfl

theorem toOption_sample_eq_some {h : OpenHeader} {text : List Char} {x : Sample} :
    (h.sample 0 text).toOption = some x ↔
      ∃ p, readReal text = .ok p ∧ (Binary64.zero.le p && p.le .one) = true ∧
      x = ⟨h.clockCycle, p⟩ := by
  rw [OpenHeader.sample]
  cases readReal text with
  | error e => simp [Except.toOption]
  | ok p =>
    simp only [Except.ok.injEq, exists_eq_left']
    split
    · rename_i hrange
      simp [Except.toOption, hrange, eq_comm]
    · rename_i hrange
      simp [Except.toOption, hrange]

theorem completes_value_eq_some {h : OpenHeader} {text : List Char} :
    (LineKind.value text).completes (some h) = some xs ↔
    ∃ x, (h.sample 0 text).toOption = some x ∧ xs = [x] := by
  simp only [LineKind.completes, Option.map_eq_some_iff, @eq_comm _ xs]

theorem samplesFrom_eq_ok_iff (line : Nat) :
    samplesFrom line w ks = .ok xs ↔ reading w ks = some xs ∧ waitingAfter w ks = none := by
  induction ks generalizing w xs line with
  | nil => cases w <;> simp [samplesFrom, reading, waitingAfter]
  | cons k ks ih =>
    cases k with
    | noise => simp [samplesFrom, reading, waitingAfter, LineKind.completes, LineKind.waiting, ih]
    | header name =>
      cases w <;> simp [samplesFrom, reading, waitingAfter, LineKind.completes,
        LineKind.waiting, ih]
    | value text =>
      cases w with
      | none => simp [samplesFrom, reading, waitingAfter, LineKind.completes, LineKind.waiting, ih]
      | some h =>
        have hsample := toOption_sample h text line
        have hwait : waitingAfter (some h) (.value text :: ks) = waitingAfter none ks := rfl
        rw [samplesFrom, reading, hwait, LineKind.completes, LineKind.waiting, ← hsample]
        cases h.sample line text with
        | error e => simp [Except.toOption]
        | ok x =>
          have hrest : ∀ ys, samplesFrom (line + 1) none ks = .ok ys ↔
              reading none ks = some ys ∧ waitingAfter none ks = none := fun ys => ih (line + 1)
          simp only [Except.toOption, Option.map_some, Option.bind_some, List.singleton_append]
          cases hread : samplesFrom (line + 1) none ks with
          | error e =>
            have hnone : ∀ ys, ¬ (reading none ks = some ys ∧ waitingAfter none ks = none) := by
              intro ys hys
              rw [← hrest, hread] at hys
              cases hys
            simp only [Except.map, reduceCtorEq, Option.map_eq_some_iff, false_iff]
            rintro ⟨⟨ys, hys, -⟩, hclosed⟩
            exact hnone ys ⟨hys, hclosed⟩
          | ok ys =>
            obtain ⟨hys, hclosed⟩ := (hrest ys).mp hread
            simp [Except.map, hys, hclosed]

theorem reading_append (ks ks' : List LineKind) :
    reading w (ks ++ ks') = (reading w ks).bind fun xs =>
      (reading (waitingAfter w ks) ks').map (xs ++ ·) := by
  induction ks generalizing w with
  | nil => simp [reading, waitingAfter]
  | cons k ks ih =>
    have hwait : waitingAfter w (k :: ks) = waitingAfter (k.waiting w) ks := rfl
    rw [List.cons_append, reading, reading, ih, hwait]
    cases k.completes w with
    | none => rfl
    | some xs =>
      cases reading (k.waiting w) ks with
      | none => rfl
      | some ys => simp [Function.comp_def]

theorem waitingAfter_append (ks ks' : List LineKind) :
    waitingAfter w (ks ++ ks') = waitingAfter (waitingAfter w ks) ks' :=
  List.foldl_append

theorem reading_filter_noise (w : Option OpenHeader) (ks : List LineKind) :
    reading w (ks.filter (· ≠ .noise)) = reading w ks ∧
    waitingAfter w (ks.filter (· ≠ .noise)) = waitingAfter w ks := by
  induction ks generalizing w with
  | nil => exact ⟨rfl, rfl⟩
  | cons k ks ih =>
    obtain ⟨hread, hwait⟩ := ih (k.waiting w)
    by_cases hk : k = .noise
    · subst hk
      rw [List.filter_cons_of_neg (by simp)]
      exact ⟨by simpa [reading, LineKind.completes, LineKind.waiting] using (ih w).1, (ih w).2⟩
    · rw [List.filter_cons_of_pos (by simpa using hk), reading, hread, reading]
      exact ⟨rfl, hwait⟩

/-- Samples by clock cycle differ only in the order of the text. -/
theorem parse_eq_ok_iff {trace : String} :
    parse trace = .ok xs ↔ ∃ ys, reading none (kinds trace) = some ys ∧
      waitingAfter none (kinds trace) = none ∧ ys ≠ [] ∧ xs = byClockCycle ys := by
  rw [parse]
  cases hsamples : samplesFrom 1 none (kinds trace) with
  | error e =>
    have hnone : ∀ ys,
        ¬ (reading none (kinds trace) = some ys ∧ waitingAfter none (kinds trace) = none) := by
      intro ys hys
      rw [← samplesFrom_eq_ok_iff 1, hsamples] at hys
      cases hys
    simp only [reduceCtorEq, false_iff, not_exists]
    rintro ys ⟨hys, hclosed, -⟩
    exact hnone ys ⟨hys, hclosed⟩
  | ok ys =>
    obtain ⟨hys, hclosed⟩ := (samplesFrom_eq_ok_iff 1).mp hsamples
    cases ys with
    | nil => simp [hys]
    | cons y ys =>
      simp only [hys, hclosed, Option.some.injEq, true_and, exists_eq_left', ne_eq, reduceCtorEq,
        not_false_eq_true]
      constructor
      · intro h
        exact (Except.ok.inj h).symm
      · intro h
        exact congrArg Except.ok h.symm

theorem ofLine_trim (l : List Char) : LineKind.ofLine (trim l) = LineKind.ofLine l := by
  have htrim : trim (trim l) = trim l :=
    trim_eq (fun _ hc => isBlank_of_mem_head?_trim hc) fun _ hc => isBlank_of_mem_getLast?_trim hc
  rw [LineKind.ofLine, LineKind.ofLine, htrim]

theorem filter_kinds (ls : List (List Char)) :
    (ls.map LineKind.ofLine).filter (· ≠ .noise) =
      ((filled ls).map LineKind.ofLine).filter (· ≠ .noise) := by
  induction ls with
  | nil => rfl
  | cons l ls ih =>
    unfold filled at ih ⊢
    rw [List.map_cons, List.map_cons, List.filter_cons, ih]
    by_cases hblank : trim l = []
    · have hnoise : LineKind.ofLine l = .noise := by
        rw [← ofLine_trim, hblank]
        decide
      rw [hnoise, hblank]
      rfl
    · rw [List.filter_cons_of_pos (by simpa using hblank), List.map_cons, ofLine_trim,
        List.filter_cons]

theorem parse_trimmed {trace : String} : parse (trimmed trace) = .ok xs ↔ parse trace = .ok xs := by
  have hkinds : (kinds (trimmed trace)).filter (· ≠ .noise) =
      (kinds trace).filter (· ≠ .noise) := by
    rw [kinds, kinds, trimmed, String.toList_ofList, filter_kinds (lines (trim trace.toList)),
      filled_lines_trim, ← filter_kinds]
  obtain ⟨hread, hwait⟩ := reading_filter_noise none (kinds trace)
  obtain ⟨hread', hwait'⟩ := reading_filter_noise none (kinds (trimmed trace))
  rw [hkinds] at hread' hwait'
  rw [parse_eq_ok_iff, parse_eq_ok_iff, ← hread, ← hwait, ← hread', ← hwait']

end NoiseTimeline.Trace
