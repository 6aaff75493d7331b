import NoiseTimeline.Proofs.KeySort
import NoiseTimeline.Proofs.Saturation
import NoiseTimeline.Proofs.Trace.Line

/-! The traces a checker may print: for each result a header line and a value line, among
lines that are neither. Reading such a trace gives its results back. -/

namespace NoiseTimeline.Trace

open Text

variable {xs : List Sample} {ls : List (List Char)} {w : Option Sample}

/-- The lines print these results. With `w` the header of that result stands before them. -/
inductive Prints : Option Sample → List Sample → List (List Char) → Prop
  | nil : Prints none [] []
  | noise {w : Option Sample} {xs : List Sample} {l : List Char} {ls : List (List Char)}
      (hl : IsNoise l)
      (h : Prints w xs ls) : Prints w xs (l :: ls)
  | header {x : Sample} {xs : List Sample} {ls : List (List Char)} (style : HeaderStyle)
      (h : Prints (some x) xs ls) :
      Prints none (x :: xs) (style.line x.clockCycle :: ls)
  | value {x : Sample} {xs : List Sample} {ls : List (List Char)} (style : ValueStyle)
      (h : Prints none xs ls) :
      Prints (some x) xs (style.line x.probability :: ls)

/-- The counter holds the cycle and the probability lies between zero and one. -/
def IsResult (x : Sample) : Prop :=
  x.clockCycle < wordLimit ∧ Binary64.zero.le x.probability = true ∧ x.probability.le .one = true

instance (x : Sample) : Decidable (IsResult x) :=
  inferInstanceAs
    (Decidable (x.clockCycle < wordLimit ∧ Binary64.zero.le x.probability = true ∧
      x.probability.le .one = true))

theorem sample_text {x : Sample} (h : IsResult x) (name : List Char) (line : Nat) :
    OpenHeader.sample ⟨name, x.clockCycle⟩ line x.probability.text = .ok x := by
  obtain ⟨-, hzero, hone⟩ := h
  rw [OpenHeader.sample, Binary64.readReal_text (Binary64.le_iff.mp hone).1]
  simp only [hzero, hone, Bool.and_self, if_true]

theorem Prints.samplesFrom_kinds (h : Prints w xs ls) (hw : ∀ x ∈ w, IsResult x)
    (hxs : ∀ x ∈ xs, IsResult x) {waiting : Option OpenHeader}
    (hwaiting : waiting.map OpenHeader.clockCycle = w.map Sample.clockCycle) (line : Nat) :
    samplesFrom line waiting (ls.map LineKind.ofLine) = .ok (w.toList ++ xs) := by
  induction h generalizing waiting line with
  | nil =>
    obtain rfl : waiting = none := by simpa using hwaiting
    rfl
  | noise hl h ih =>
    rw [List.map_cons, ofLine_eq_noise_iff.mpr hl, samplesFrom]
    exact ih hw hxs hwaiting (line + 1)
  | header style h ih =>
    rename_i x xs ls
    obtain rfl : waiting = none := by simpa using hwaiting
    obtain ⟨hx, hxs⟩ := List.forall_mem_cons.mp hxs
    rw [List.map_cons, style.ofLine_line, samplesFrom, style.ofName?_name hx.1]
    exact ih (by simpa using hx) hxs rfl (line + 1)
  | value style h ih =>
    rename_i x xs ls
    obtain ⟨⟨name, clockCycle⟩, rfl, rfl⟩ :
        ∃ header, waiting = some header ∧ header.clockCycle = x.clockCycle := by
      simpa using hwaiting
    rw [List.map_cons, style.ofLine_line, samplesFrom, sample_text (hw x rfl) name line,
      ih (by simp) hxs rfl (line + 1)]
    rfl

theorem kinds_of_laidOut {trace : String} (h : LaidOut ls trace.toList) :
    kinds trace = ls.map LineKind.ofLine := by
  have htrim : LineKind.ofLine.FactorsThrough trim := by
    intro l l' hl
    rw [LineKind.ofLine, LineKind.ofLine, hl]
  have : Nonempty LineKind := ⟨.noise⟩
  obtain ⟨kind, hkind⟩ := (Function.factorsThrough_iff LineKind.ofLine).mp htrim
  rw [kinds, hkind, ← List.map_map, h.map_trim_lines, List.map_map]

/-- The order in which a reader gives the samples of a trace. -/
def byClockCycle (xs : List Sample) : List Sample :=
  xs.mergeSort fun a b => a.clockCycle ≤ b.clockCycle

theorem byClockCycle_perm (xs : List Sample) : (byClockCycle xs).Perm xs := List.mergeSort_perm xs _

theorem byClockCycle_ascending (xs : List Sample) :
    (byClockCycle xs).Pairwise fun x y => x.clockCycle ≤ y.clockCycle :=
  mergeSort_key_ascending Sample.clockCycle xs

theorem byClockCycle_of_ascending (h : xs.Pairwise fun x y => x.clockCycle ≤ y.clockCycle) :
    byClockCycle xs = xs :=
  mergeSort_key_of_ascending h

theorem filter_byClockCycle (c : Nat) (xs : List Sample) :
    (byClockCycle xs).filter (fun x => x.clockCycle = c) = xs.filter fun x => x.clockCycle = c :=
  filter_mergeSort_key Sample.clockCycle c xs

theorem parse_of_prints {trace : String} (hne : xs ≠ []) (hresults : ∀ x ∈ xs, IsResult x)
    (hprints : Prints none xs ls) (htrace : LaidOut ls trace.toList) :
    parse trace = .ok (byClockCycle xs) := by
  have hsamples : samplesFrom 1 none (ls.map LineKind.ofLine) = .ok xs :=
    hprints.samplesFrom_kinds (by simp) hresults rfl 1
  obtain ⟨x, rest, rfl⟩ := List.exists_cons_of_ne_nil hne
  rw [parse, kinds_of_laidOut htrace, hsamples]
  rfl

/-- However its results are printed and whatever stands between them, a trace is read as just these
results, by clock cycle and for each cycle in the order of the text. -/
theorem printed_results_read_back {trace : String} (hne : xs ≠ []) (hresults : ∀ x ∈ xs, IsResult x)
    (hprints : Prints none xs ls) (htrace : LaidOut ls trace.toList) :
    ∃ ys, parse trace = .ok ys ∧ ys.Perm xs ∧ ys.Pairwise (fun x y => x.clockCycle ≤ y.clockCycle) ∧
      ∀ c, ys.filter (fun x => x.clockCycle = c) = xs.filter fun x => x.clockCycle = c :=
  ⟨byClockCycle xs, parse_of_prints hne hresults hprints htrace, byClockCycle_perm xs,
    byClockCycle_ascending xs, fun c => filter_byClockCycle c xs⟩

def quotedHeader : HeaderStyle :=
  { indent := [' '], lead := ['+', ' '], stem := "P_".toList, quoted := true, trail := ['\t'] }

def plainHeader : HeaderStyle := { stem := "noise at ".toList }

def bareHeader : HeaderStyle := { lead := ['+'], stem := [] }

def remarkedValue : ValueStyle :=
  { indent := [' ', ' '], estimated := true, remark := " (exact)".toList }

def plainValue : ValueStyle := {}

def half : Binary64 := ⟨0x3fe0000000000000⟩

def noisyResults : List Sample := [⟨7, half⟩, ⟨3, .zero⟩, ⟨7, .one⟩]

def noisyLines : List (List Char) :=
  ["Simulating...".toList, quotedHeader.line 7, "  Runs: 1600".toList, remarkedValue.line half, [],
    plainHeader.line 3, plainValue.line .zero, bareHeader.line 7, plainValue.line .one]

def noisyTrace : String :=
  String.join ["Simulating...\r\n", " + Property \"P_7\"\t\r\n", "  Runs: 1600\n",
    "  Estimated probability: 0.5 (exact)\r\n", "\n", "Property noise at 3\n", "Probability: 0\r\n",
    "+Property 7\n", "Probability: 1"]

theorem prints_noisyLines : Prints none noisyResults noisyLines :=
  .noise (by decide) <| .header quotedHeader <| .noise (by decide) <| .value remarkedValue <|
    .noise (by decide) <|
    .header plainHeader <| .value plainValue <| .header bareHeader <| .value plainValue .nil

theorem noisyLines_eq :
    noisyLines = ["Simulating...".toList, " + Property \"P_7\"\t".toList, "  Runs: 1600".toList,
      "  Estimated probability: 0.5 (exact)".toList, [], "Property noise at 3".toList,
      "Probability: 0".toList,
    "+Property 7".toList, "Probability: 1".toList] := by
  decide +kernel

theorem laidOut_noisyTrace : LaidOut noisyLines noisyTrace.toList := by
  have htext : noisyTrace.toList =
      "Simulating...".toList ++ '\r' :: '\n' :: (" + Property \"P_7\"\t".toList ++ '\r' :: '\n' ::
      ("  Runs: 1600".toList ++ '\n' ::
        ("  Estimated probability: 0.5 (exact)".toList ++ '\r' :: '\n' :: ([] ++ '\n' ::
      ("Property noise at 3".toList ++ '\n' ::
        ("Probability: 0".toList ++ '\r' :: '\n' :: ("+Property 7".toList ++ '\n' ::
      "Probability: 1".toList))))))) := by
    rw [noisyTrace, String.toList_join]
    decide +kernel
  rw [noisyLines_eq, htext]
  exact .crlf (by decide) <| .crlf (by decide) <| .lf (by decide) <| .crlf (by decide) <|
    .lf (by decide) <|
    .lf (by decide) <| .crlf (by decide) <| .lf (by decide) <| .last (by decide) (by decide)

theorem noisyTrace_reads_back : ∃ ys, parse noisyTrace = .ok ys ∧ ys.Perm noisyResults ∧
    ys.Pairwise (fun x y => x.clockCycle ≤ y.clockCycle) ∧
    ys.filter (fun x => x.clockCycle = 7) = [⟨7, half⟩, ⟨7, .one⟩] := by
  have hresults : ∀ x ∈ noisyResults, IsResult x := by decide
  obtain ⟨ys, hparse, hperm, hascending, hfilter⟩ :=
    printed_results_read_back (by decide) hresults prints_noisyLines laidOut_noisyTrace
  exact ⟨ys, hparse, hperm, hascending, hfilter 7⟩

end NoiseTimeline.Trace
