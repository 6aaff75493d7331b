import NoiseTimeline.Proofs.Trace.Reading
import NoiseTimeline.Proofs.Traversal

/-! Which traces are read, and why the others are not. A header that ends in a clock cycle asks for
a value right after it among the headers and values of the trace, and the first that does not get
one that will do decides the error. -/

namespace NoiseTimeline

namespace Trace

/-- A line that is more than noise; of a value also the number of its line. -/
inductive Mark where
  | header (name : List Char)
  | value (line : Nat) (text : List Char)
  deriving DecidableEq

def LineKind.mark? (line : Nat) : LineKind → Option Mark
  | .header name => some (.header name)
  | .value text => some (.value line text)
  | .noise => none

def marksFrom (line : Nat) (ks : List LineKind) : List Mark :=
  (ks.zipIdx line).filterMap fun k => k.1.mark? k.2

/-- The headers and values of a trace, by line. -/
def marks (trace : String) : List Mark := marksFrom 1 (kinds trace)

/-- The result that a mark opens, if it is a header whose name ends in a clock cycle. -/
def Mark.opens? : Mark → Option OpenHeader
  | .header name => OpenHeader.ofName? name
  | .value _ _ => none

/-- A header of a clock cycle and what comes right after it. -/
structure Demand where
  header : OpenHeader
  next : Option Mark
  deriving DecidableEq

def asked (w : Option OpenHeader) (ms : List Mark) : List Demand :=
  (w.map fun h => ⟨h, ms.head?⟩).toList

def demands : List Mark → List Demand
  | [] => []
  | m :: ms => asked m.opens? ms ++ demands ms

/-- The value right after the header is a number between zero and one. -/
inductive Answers : Demand → Sample → Prop
  | value {h : OpenHeader} {line : Nat} {text : List Char} {p : Binary64}
      (hread : readReal text = .ok p)
      (hrange : Binary64.zero.le p = true ∧ p.le .one = true) :
      Answers ⟨h, some (.value line text)⟩ ⟨h.clockCycle, p⟩

/-- What is wrong after the header, and how it is reported. -/
inductive Violates : Demand → TraceError → Prop
  | atEnd {h : OpenHeader} : Violates ⟨h, none⟩ (.missingProbability (String.ofList h.name))
  | atHeader {h : OpenHeader} {name : List Char} :
      Violates ⟨h, some (.header name)⟩ (.missingProbability (String.ofList h.name))
  | unreadable {h : OpenHeader} {line : Nat} {text : List Char}
      (hread : ∀ p, readReal text ≠ .ok p) :
      Violates ⟨h, some (.value line text)⟩ (.invalidProbability line (String.ofList text))
  | outside {h : OpenHeader} {line : Nat} {text : List Char} {p : Binary64}
      (hread : readReal text = .ok p)
      (hrange : ¬ (Binary64.zero.le p = true ∧ p.le .one = true)) :
      Violates ⟨h, some (.value line text)⟩ (.outOfRange h.clockCycle p)

/-- What a trace comes to, told from what its headers demand. -/
inductive Verdict (ds : List Demand) : Except TraceError (List Sample) → Prop
  | read {xs : List Sample} (hanswers : List.Forall₂ Answers ds xs) (hne : ds ≠ []) :
      Verdict ds (.ok (byClockCycle xs))
  | violated {before after : List Demand} {d : Demand} {e : TraceError}
      (hds : ds = before ++ d :: after)
      (hbefore : ∀ d' ∈ before, ∃ x, Answers d' x) (h : Violates d e) : Verdict ds (.error e)
  | noSamples (h : ds = []) : Verdict ds (.error .noSamples)

def Demand.sample (d : Demand) : Except TraceError Sample :=
  match d.next with
  | some (.value line text) => d.header.sample line text
  | _ => .error d.header.missing

variable {line : Nat} {w : Option OpenHeader} {ks ks' : List LineKind} {ms ms' : List Mark}
  {d : Demand} {e : TraceError} {x : Sample} {trace trace' : String}

@[simp] theorem marksFrom_header (name : List Char) :
    marksFrom line (.header name :: ks) = .header name :: marksFrom (line + 1) ks := rfl

@[simp] theorem marksFrom_value (text : List Char) :
    marksFrom line (.value text :: ks) = .value line text :: marksFrom (line + 1) ks := rfl

@[simp] theorem asked_none : asked none ms = [] := rfl

@[simp] theorem asked_some (h : OpenHeader) : asked (some h) ms = [⟨h, ms.head?⟩] := rfl

@[simp] theorem demands_header (name : List Char) :
    demands (.header name :: ms) = asked (OpenHeader.ofName? name) ms ++ demands ms := rfl

@[simp] theorem demands_value (line : Nat) (text : List Char) :
    demands (.value line text :: ms) = demands ms := rfl

theorem marksFrom_append (ks ks' : List LineKind) :
    marksFrom line (ks ++ ks') = marksFrom line ks ++ marksFrom (line + ks.length) ks' := by
  rw [marksFrom, List.zipIdx_append, List.filterMap_append]
  rfl

@[simp] theorem Demand.sample_value (h : OpenHeader) (line : Nat) (text : List Char) :
    Demand.sample ⟨h, some (.value line text)⟩ = h.sample line text := rfl

theorem sample_eq_ok_iff : d.sample = .ok x ↔ Answers d x := by
  obtain ⟨h, next⟩ := d
  constructor
  · intro hok
    rcases next with _ | name | ⟨line, text⟩
    · cases hok
    · cases hok
    · have hsome : (h.sample line text).toOption = some x := by
        rw [show h.sample line text = .ok x from hok]; rfl
      rw [toOption_sample, toOption_sample_eq_some] at hsome
      obtain ⟨p, hread, hrange, rfl⟩ := hsome
      exact .value hread (by simpa using hrange)
  · rintro ⟨hread, hrange⟩
    simp [OpenHeader.sample, hread, hrange]

theorem sample_eq_error_iff : d.sample = .error e ↔ Violates d e := by
  obtain ⟨h, next⟩ := d
  constructor
  · intro herror
    rcases next with _ | name | ⟨line, text⟩
    · obtain rfl := Except.error.inj herror
      exact .atEnd
    · obtain rfl := Except.error.inj herror
      exact .atHeader
    · rw [Demand.sample_value, OpenHeader.sample] at herror
      cases hread : readReal text with
      | error _ =>
        rw [hread] at herror
        obtain rfl := Except.error.inj herror
        exact .unreadable (by simp [hread])
      | ok p =>
        simp only [hread] at herror
        split at herror
        · cases herror
        · rename_i hrange
          obtain rfl := Except.error.inj herror
          exact .outside hread (by simpa using hrange)
  · intro hviolates
    cases hviolates with
    | atEnd => rfl
    | atHeader => rfl
    | @unreadable _ line text hread =>
      rw [Demand.sample_value, OpenHeader.sample]
      cases hp : readReal text with
      | error _ => rfl
      | ok p => exact absurd hp (hread p)
    | outside hread hrange => simp [OpenHeader.sample, hread, hrange]

theorem samplesFrom_eq : samplesFrom line w ks =
    (asked w (marksFrom line ks) ++ demands (marksFrom line ks)).mapM Demand.sample := by
  -- A header that waits asks for the first mark of what is left, so a header or a value
  -- answers it at once.
  induction ks generalizing line w with
  | nil => cases w <;> rfl
  | cons k ks ih =>
    cases k with
    | noise => exact ih
    | header name =>
      cases w with
      | none => rw [samplesFrom, ih, marksFrom_header, demands_header, asked_none, List.nil_append]
      | some h => rfl
    | value text =>
      have hrest : samplesFrom (line + 1) none ks =
          (demands (marksFrom (line + 1) ks)).mapM Demand.sample := ih
      cases w with
      | none => rw [samplesFrom, hrest, marksFrom_value, demands_value, asked_none, List.nil_append]
      | some h =>
        rw [samplesFrom, hrest, marksFrom_value, demands_value, asked_some, List.singleton_append,
          List.head?_cons, List.mapM_cons, Demand.sample_value]
        cases h.sample line text with
        | error e => rfl
        | ok x => cases (demands (marksFrom (line + 1) ks)).mapM Demand.sample <;> rfl

theorem parse_eq : parse trace =
    match (demands (marks trace)).mapM Demand.sample with
    | .error e => .error e
    | .ok [] => .error .noSamples
    | .ok xs => .ok (byClockCycle xs) := by
  have hsamples : samplesFrom 1 none (kinds trace) = (demands (marks trace)).mapM Demand.sample :=
    samplesFrom_eq
  rw [parse, hsamples]
  rfl

theorem parse_eq_iff {r : Except TraceError (List Sample)} :
    parse trace = r ↔ Verdict (demands (marks trace)) r := by
  simp only [parse_eq]
  constructor
  · rintro rfl
    cases hsamples : (demands (marks trace)).mapM Demand.sample with
    | error e =>
      obtain ⟨before, d, after, hds, hbefore, hd⟩ := mapM_eq_error_iff.mp hsamples
      exact .violated hds (by simpa only [sample_eq_ok_iff] using hbefore)
        (sample_eq_error_iff.mp hd)
    | ok xs =>
      have hanswers := mapM_eq_ok_iff.mp hsamples
      simp only [sample_eq_ok_iff] at hanswers
      cases xs with
      | nil => exact .noSamples (List.forall₂_nil_right_iff.mp hanswers)
      | cons x xs => exact .read hanswers fun hnil => by simp [hnil] at hanswers
  · rintro (⟨hanswers, hne⟩ | ⟨hds, hbefore, hd⟩ | hnil)
    · rename_i xs
      have hsamples : (demands (marks trace)).mapM Demand.sample = .ok xs :=
        mapM_eq_ok_iff.mpr (by simpa only [sample_eq_ok_iff] using hanswers)
      rw [hsamples]
      cases xs with
      | nil => exact absurd (List.forall₂_nil_right_iff.mp hanswers) hne
      | cons x xs => rfl
    · rename_i before after d e
      have hsamples : (demands (marks trace)).mapM Demand.sample = .error e :=
        mapM_eq_error_iff.mpr ⟨before, d, after, hds,
          by simpa only [sample_eq_ok_iff] using hbefore, sample_eq_error_iff.mpr hd⟩
      rw [hsamples]
    · rw [hnil]
      rfl

theorem mem_asked_iff : d ∈ asked w ms ↔ w = some d.header ∧ d.next = ms.head? := by
  obtain ⟨h, next⟩ := d
  cases w with
  | none => simp
  | some h' => simp [eq_comm]

theorem mem_demands_iff : d ∈ demands ms ↔
    ∃ before m after, ms = before ++ m :: after ∧ m.opens? = some d.header ∧
    d.next = after.head? := by
  induction ms with
  | nil => simp [demands]
  | cons m ms ih =>
    rw [demands, List.mem_append, mem_asked_iff, ih]
    constructor
    · rintro (⟨hopens, hnext⟩ | ⟨before, m', after, rfl, hm'⟩)
      · exact ⟨[], m, ms, rfl, hopens, hnext⟩
      · exact ⟨m :: before, m', after, rfl, hm'⟩
    · rintro ⟨before, m', after, hms, hm'⟩
      cases before with
      | nil =>
        obtain ⟨rfl, rfl⟩ := List.cons.inj hms
        exact .inl hm'
      | cons b before =>
        obtain ⟨rfl, rfl⟩ := List.cons.inj hms
        exact .inr ⟨before, m', after, rfl, hm'⟩

theorem demands_eq_nil_iff : demands ms = [] ↔ ∀ m ∈ ms, m.opens? = none := by
  induction ms with
  | nil => simp [demands]
  | cons m ms ih =>
    rw [demands, List.append_eq_nil_iff, ih, List.forall_mem_cons]
    cases m.opens? <;> simp

theorem demands_append (h : ∀ m ∈ ms.getLast?, m.opens? = none) :
    demands (ms ++ ms') = demands ms ++ demands ms' := by
  induction ms with
  | nil => rfl
  | cons m ms ih =>
    cases ms with
    | nil =>
      have hm : m.opens? = none := h m rfl
      simp [demands, hm]
    | cons m' ms => rw [List.cons_append, demands, ih h, ← List.append_assoc]; rfl

/-- In the place of a value that no header waits for there may be any other, or noise. -/
theorem parse_of_orphan {text : List Char} {k : LineKind}
    (htrace : kinds trace = ks ++ .value text :: ks') (htrace' : kinds trace' = ks ++ k :: ks')
    (hk : ∀ name, k ≠ .header name) (horphan : ∀ m ∈ (marksFrom 1 ks).getLast?, m.opens? = none) :
    parse trace' = parse trace := by
  have hdemands : demands (marks trace') = demands (marks trace) := by
    rw [marks, marks, htrace, htrace', marksFrom_append, marksFrom_append, demands_append horphan,
      demands_append horphan]
    cases k with
    | noise => rfl
    | header name => exact absurd rfl (hk name)
    | value text' => rfl
  rw [parse_eq, parse_eq, hdemands]

theorem exists_parse_eq_ok_iff : (∃ xs, parse trace = .ok xs) ↔
    (∀ d ∈ demands (marks trace), ∃ x, Answers d x) ∧ demands (marks trace) ≠ [] := by
  simp only [parse_eq_iff, ← exists_forall₂_iff]
  constructor
  · rintro ⟨_, hanswers, hne⟩
    exact ⟨⟨_, hanswers⟩, hne⟩
  · rintro ⟨⟨xs, hanswers⟩, hne⟩
    exact ⟨byClockCycle xs, .read hanswers hne⟩

theorem parse_eq_noSamples_iff : parse trace = .error .noSamples ↔ demands (marks trace) = [] := by
  rw [parse_eq_iff]
  constructor
  · rintro (_ | ⟨-, -, h⟩ | h)
    · cases h
    · exact h
  · exact .noSamples

/-- Every header of a clock cycle asks for a value right after it, and a trace is read if there is
such a header and each gets a number between zero and one. The samples are then these numbers by
clock cycle. If not, the error is that of the first header whose demand is not met, with `noSamples`
only where there is no demand. No other value counts. -/
theorem accepted_or_first_violation (trace : String) :
    (∀ r, parse trace = r ↔ Verdict (demands (marks trace)) r) ∧
    ((∃ xs, parse trace = .ok xs) ↔
      (∀ before m after h, marks trace = before ++ m :: after → m.opens? = some h →
        ∃ x, Answers ⟨h, after.head?⟩ x) ∧ ∃ m ∈ marks trace, m.opens? ≠ none) ∧
    (∀ xs, parse trace = .ok xs → ∃ ys, List.Forall₂ Answers (demands (marks trace)) ys ∧
      xs.Perm ys ∧
      (∀ c, xs.filter (fun x => x.clockCycle = c) = ys.filter fun x => x.clockCycle = c) ∧
      xs.Pairwise (fun x y => x.clockCycle ≤ y.clockCycle) ∧ xs ≠ [] ∧
      ∀ x ∈ xs, x.probability.isNaN = false ∧ Binary64.zero.le x.probability = true ∧
        x.probability.le .one = true) ∧
    (parse trace = .error .noSamples ↔ ∀ m ∈ marks trace, m.opens? = none) ∧
    ∀ ks text k ks' trace', kinds trace = ks ++ .value text :: ks' → kinds trace' = ks ++ k :: ks' →
      (∀ name, k ≠ .header name) → (∀ m ∈ (marksFrom 1 ks).getLast?, m.opens? = none) →
      parse trace' = parse trace := by
  refine ⟨fun r => parse_eq_iff, ?_, ?_, ?_, fun ks text k ks' trace' => parse_of_orphan⟩
  · rw [exists_parse_eq_ok_iff]
    have hdemanded : (∃ m ∈ marks trace, m.opens? ≠ none) ↔ demands (marks trace) ≠ [] := by
      rw [ne_eq, demands_eq_nil_iff]
      push Not
      rfl
    rw [hdemanded]
    constructor
    · rintro ⟨hanswered, hne⟩
      refine ⟨fun before m after h hms hopens => ?_, hne⟩
      exact hanswered _ (mem_demands_iff.mpr ⟨before, m, after, hms, hopens, rfl⟩)
    · rintro ⟨hanswered, hne⟩
      refine ⟨fun d hd => ?_, hne⟩
      obtain ⟨before, m, after, hms, hopens, hnext⟩ := mem_demands_iff.mp hd
      obtain ⟨x, hx⟩ := hanswered before m after d.header hms hopens
      rw [← hnext] at hx
      exact ⟨x, hx⟩
  · intro xs hxs
    obtain ⟨hanswers, hne⟩ := parse_eq_iff.mp hxs
    rename_i ys
    have hperm := byClockCycle_perm ys
    refine ⟨ys, hanswers, hperm, fun c => filter_byClockCycle c ys,
      byClockCycle_ascending ys, ?_, ?_⟩
    · intro hnil
      rw [hnil] at hperm
      rw [← hperm.nil_eq] at hanswers
      exact hne (List.forall₂_nil_right_iff.mp hanswers)
    · intro x hx
      obtain ⟨d, -, hread, hzero, hone⟩ := exists_of_mem_forall₂ hanswers (hperm.mem_iff.mp hx)
      exact ⟨(Binary64.le_iff.mp hone).1, hzero, hone⟩
  · rw [parse_eq_noSamples_iff, demands_eq_nil_iff]

def orphanTrace (orphan : String) : String :=
  "Probability: " ++ orphan ++ "\n+ Property P_5\n Probability: 1\nProbability: .\nProperty end"

def doubtfulTrace : String :=
  "Property P_3\n\nProbability: 0.5\nProperty P_4\nProbability: .\nProperty P_5"

/-- A value before all headers makes no difference, and of two headers that go without one the first
is reported. -/
theorem orphan_ignored_and_first_reported :
    parse (orphanTrace "many") = parse (orphanTrace "0.5") ∧
    parse doubtfulTrace = .error (.invalidProbability 5 ".") := by
  obtain ⟨-, -, -, -, horphan⟩ := accepted_or_first_violation (orphanTrace "0.5")
  obtain ⟨hverdict, -⟩ := accepted_or_first_violation doubtfulTrace
  have hdemands : demands (marks doubtfulTrace) =
      [⟨⟨"P_3".toList, 3⟩, some (.value 3 "0.5".toList)⟩] ++
        ⟨⟨"P_4".toList, 4⟩, some (.value 5 ['.'])⟩ ::
        [⟨⟨"P_5".toList, 5⟩, none⟩] := by
    decide +kernel
  constructor
  · refine horphan [] "0.5".toList (.value "many".toList)
      [.header "P_5".toList, .value ['1'], .value ['.'], .header "end".toList] _ ?_ ?_ ?_ ?_
    · decide +kernel
    · decide +kernel
    · rintro name ⟨⟩
    · rintro m ⟨⟩
  · refine (hverdict _).mpr (.violated hdemands ?_ (.unreadable ?_))
    · intro d hd
      obtain rfl := List.mem_singleton.mp hd
      exact ⟨⟨3, half⟩, .value (by decide +kernel) (by decide)⟩
    · intro p hp
      have hnone : (readReal ['.']).toOption = none := by decide +kernel
      rw [hp] at hnone
      cases hnone

end Trace

end NoiseTimeline
