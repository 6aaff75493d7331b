import NoiseTimeline.ModestTool
import NoiseTimeline.Proofs.Trace.Reading
import NoiseTimeline.Shell.Host

/-! The two outputs of the tool read as one trace. The error output follows the output
without a line feed, so one line is made of a line of each. -/

namespace NoiseTimeline

open Text

namespace Trace

variable {w : Option OpenHeader} {xs zs : List Sample} {l l' : List Char} {out err : String}

/-- A line that continues the last one does no harm: if no header waits, it opens none that would
wait in vain, and if one does, its value stays the same number. -/
def JoinsQuietly (w : Option OpenHeader) (l l' : List Char) : Prop :=
  match w with
  | none => ∀ name, LineKind.ofLine (l ++ l') = .header name → OpenHeader.ofName? name = none
  | some _ =>
    ∀ text text', LineKind.ofLine l = .value text → LineKind.ofLine (l ++ l') = .value text' →
      readReal text' = readReal text

theorem holdsValue_of_ofLine {text : List Char}
    (h : LineKind.ofLine l = .value text) : HoldsValue l := by
  rw [← isSome_valueText?_iff]
  simp only [LineKind.ofLine] at h
  split at h
  · cases h
  · split at h
    · rename_i text' htext
      rw [htext]
      rfl
    · cases h

theorem exists_ofLine_append {text : List Char} (h : LineKind.ofLine l = .value text)
    (hlast : ∃ c ∈ l.getLast?, isBlank c = false) (s : List Char) :
    ∃ text', LineKind.ofLine (l ++ s) = .value text' := by
  obtain ⟨estimated, rest, htrim, hrest⟩ := holdsValue_of_ofLine h
  have hjoined : trim (l ++ s) = valueWord estimated ++ (rest ++ trimRight s) := by
    rw [trim_append hlast, htrim, List.append_assoc]
  have hword : (firstWord? (rest ++ trimRight s)).isSome = true := by
    rw [isSome_firstWord?_iff]
    exact fun hall => hrest fun c hc => hall c (List.mem_append_left _ hc)
  obtain ⟨text', htext⟩ := Option.isSome_iff_exists.mp hword
  refine ⟨text', ?_⟩
  rw [LineKind.ofLine]
  simp only [hjoined, headerName?_valueWord, valueText?_valueWord, htext]

theorem completes_none (k : LineKind) : k.completes none = some [] := by
  cases k <;> rfl

theorem completes_eq_some {k : LineKind} (h : k.completes w = some xs) :
    xs = [] ∨ ∃ x, xs = [x] := by
  cases k with
  | noise => exact Or.inl (Option.some.inj h).symm
  | header name =>
    cases w with
    | none => exact Or.inl (Option.some.inj h).symm
    | some header => cases h
  | value text =>
    cases w with
    | none => exact Or.inl (Option.some.inj h).symm
    | some header =>
      obtain ⟨x, -, hx⟩ := completes_value_eq_some.mp h
      exact Or.inr ⟨x, hx⟩

theorem joinsQuietly_iff (hlast : ∃ c ∈ l.getLast?, isBlank c = false)
    (hl : (LineKind.ofLine l).completes w = some xs)
    (hclosed : (LineKind.ofLine l).waiting w = none) :
    JoinsQuietly w l l' ↔
      (LineKind.ofLine (l ++ l')).completes w = some xs ∧
      (LineKind.ofLine (l ++ l')).waiting w = none := by
  cases w with
  | none =>
    rw [completes_none] at hl
    obtain rfl := Option.some.inj hl
    rw [JoinsQuietly, completes_none]
    cases LineKind.ofLine (l ++ l') <;> simp [LineKind.waiting]
  | some h =>
    obtain ⟨text, htext⟩ : ∃ text, LineKind.ofLine l = .value text := by
      cases hkind : LineKind.ofLine l with
      | noise =>
        rw [hkind] at hclosed
        cases hclosed
      | header name =>
        rw [hkind] at hl
        cases hl
      | value text => exact ⟨text, rfl⟩
    obtain ⟨text', htext'⟩ := exists_ofLine_append htext hlast l'
    rw [htext, completes_value_eq_some] at hl
    obtain ⟨x, hx, rfl⟩ := hl
    obtain ⟨p, hp, hrange, rfl⟩ := toOption_sample_eq_some.mp hx
    rw [JoinsQuietly, htext, htext', completes_value_eq_some]
    constructor
    · intro hquiet
      have hread : readReal text' = .ok p := (hquiet text text' rfl rfl).trans hp
      exact ⟨⟨_, toOption_sample_eq_some.mpr ⟨p, hread, hrange, rfl⟩, rfl⟩, rfl⟩
    · rintro ⟨⟨y, hy, hsame⟩, -⟩ _ _ ⟨⟩ ⟨⟩
      obtain ⟨q, hq, -, rfl⟩ := toOption_sample_eq_some.mp hy
      rw [hq, hp, (Sample.mk.inj (List.singleton_inj.mp hsame)).2]

theorem reading_noise {ks : List LineKind} (h : ∀ k ∈ ks, k = .noise) :
    reading w ks = some [] ∧ waitingAfter w ks = w := by
  obtain ⟨hread, hwait⟩ := reading_filter_noise w ks
  have hnone : ks.filter (· ≠ .noise) = [] := by
    rw [List.filter_eq_nil_iff]
    intro k hk
    simp [h k hk]
  rw [← hread, ← hwait, hnone]
  exact ⟨rfl, rfl⟩

theorem reading_append_noise {ns : List LineKind} (hns : ∀ k ∈ ns, k = .noise)
    (w : Option OpenHeader) (ks : List LineKind) (k : LineKind) :
    reading w (ks ++ k :: ns) =
      (reading w ks).bind (fun zs => (k.completes (waitingAfter w ks)).map (zs ++ ·)) ∧
      waitingAfter w (ks ++ k :: ns) = k.waiting (waitingAfter w ks) := by
  obtain ⟨hread, -⟩ := reading_noise (w := k.waiting (waitingAfter w ks)) hns
  constructor
  · rw [reading_append, reading, hread]
    cases k.completes (waitingAfter w ks) <;> simp
  · rw [waitingAfter_append]
    exact (reading_noise hns).2

theorem byClockCycle_append_inj {ys : List Sample} (hxs : xs = [] ∨ ∃ x, xs = [x]) :
    byClockCycle (zs ++ xs) = byClockCycle (zs ++ ys) ↔ ys = xs := by
  constructor
  · intro h
    have hperm : (zs ++ ys).Perm (zs ++ xs) :=
      (byClockCycle_perm _).symm.trans (h ▸ byClockCycle_perm _)
    rw [List.perm_append_left_iff] at hperm
    rcases hxs with rfl | ⟨x, rfl⟩
    · exact List.perm_nil.mp hperm
    · exact List.perm_singleton.mp hperm
  · rintro rfl
    rfl

/-- Another last line and noise after it leave the samples of a trace alone just if that line gives
what the last one gave. -/
theorem parse_congr_last {trace trace' : String} {ks ns : List LineKind} {k k' : LineKind}
    (hkinds : kinds trace = ks ++ [k]) (hkinds' : kinds trace' = ks ++ k' :: ns)
    (hns : ∀ k ∈ ns, k = .noise) (hparse : parse trace = .ok xs) :
    ∃ ys, k.completes (waitingAfter none ks) = some ys ∧ k.waiting (waitingAfter none ks) = none ∧
      (parse trace' = .ok xs ↔
        k'.completes (waitingAfter none ks) = some ys ∧
        k'.waiting (waitingAfter none ks) = none) := by
  obtain ⟨samples, hread, hclosed, hne, rfl⟩ := parse_eq_ok_iff.mp hparse
  obtain ⟨hreads, hwaits⟩ := reading_append_noise (List.forall_mem_nil _) none ks k
  obtain ⟨hreads', hwaits'⟩ := reading_append_noise hns none ks k'
  rw [hkinds, hreads] at hread
  rw [hkinds, hwaits] at hclosed
  obtain ⟨zs, hzs, hread⟩ := Option.bind_eq_some_iff.mp hread
  obtain ⟨ys, hys, rfl⟩ := Option.map_eq_some_iff.mp hread
  refine ⟨ys, hys, hclosed, ?_⟩
  rw [parse_eq_ok_iff, hkinds', hreads', hwaits', hzs, Option.bind_some]
  constructor
  · rintro ⟨_, hread', hclosed', -, hsame⟩
    obtain ⟨ys', hys', rfl⟩ := Option.map_eq_some_iff.mp hread'
    rw [(byClockCycle_append_inj (completes_eq_some hys)).mp hsame] at hys'
    exact ⟨hys', hclosed'⟩
  · rintro ⟨hys', hclosed'⟩
    exact ⟨zs ++ ys, by rw [hys']; rfl, hclosed', hne, rfl⟩

theorem ofLine_noise_of_trimmed (h : ∀ l ∈ lines err.toList, IsNoise l)
    (hl : l ∈ lines (trim err.toList)) :
    LineKind.ofLine l = .noise := by
  rw [← ofLine_trim]
  by_cases hblank : trim l = []
  · rw [hblank]
    decide
  · have hfilled : trim l ∈ filled (lines err.toList) := by
      rw [← filled_lines_trim]
      exact List.mem_filter.mpr ⟨List.mem_map_of_mem hl, by simpa using hblank⟩
    obtain ⟨m, hm, heq⟩ := List.mem_map.mp (List.mem_filter.mp hfilled).1
    rw [← heq, ofLine_trim, ofLine_eq_noise_iff]
    exact h m hm

theorem exists_last_of_trim {t : List Char} (hne : t ≠ []) (htrim : trim t = t) :
    ∃ c ∈ t.getLast?, isBlank c = false := by
  refine ⟨t.getLast hne, List.getLast?_eq_some_getLast hne, ?_⟩
  apply isBlank_of_mem_getLast?_trim (s := t)
  rw [htrim]
  exact List.getLast?_eq_some_getLast hne

/-- A trace keeps its samples with noise right behind it just if the first line of that joins
quietly. -/
theorem parse_append_noise (hparse : parse out = .ok xs) (hout : trim out.toList = out.toList)
    (herr : trim err.toList = err.toList)
    (hnoise : ∀ l ∈ lines err.toList, LineKind.ofLine l = .noise) :
    parse (out ++ err) = .ok xs ↔
    ∀ l ∈ (lines out.toList).getLast?, ∀ l' ∈ (lines err.toList).head?,
      JoinsQuietly (waitingAfter none ((lines out.toList).dropLast.map LineKind.ofLine)) l l' := by
  by_cases hempty : err.toList = []
  · rw [String.toList_eq_nil_iff.mp hempty, String.append_empty]
    simp [hparse, lines, linesFrom]
  have hfull : out.toList ≠ [] := by
    intro hnil
    obtain ⟨samples, hread, -, hne, -⟩ := parse_eq_ok_iff.mp hparse
    rw [kinds, hnil] at hread
    exact hne (Option.some.inj hread).symm
  have hend := exists_last_of_trim hfull hout
  have hlast : out.toList.getLast? ≠ some '\n' := by
    intro hfeed
    obtain ⟨c, hc, hblank⟩ := hend
    obtain rfl := Option.some.inj (hc.symm.trans hfeed)
    cases hblank
  have hhead : err.toList.head? ≠ some '\n' := by
    intro hfeed
    rw [← herr] at hfeed
    exact absurd (isBlank_of_mem_head?_trim hfeed) (by decide)
  obtain ⟨ls, l, l', ls', hlines, hl, hfirst, hjoin⟩ := lines_join hlast hfull hhead hempty
  rw [← hl] at hend
  have htail : ∀ k ∈ ls'.map LineKind.ofLine, k = .noise := by
    intro k hk
    obtain ⟨m, hm, rfl⟩ := List.mem_map.mp hk
    exact hnoise m (by rw [hfirst]; exact List.mem_cons_of_mem _ hm)
  have hkinds : kinds out = ls.map LineKind.ofLine ++ [LineKind.ofLine l] := by
    rw [kinds, hlines, List.map_append, List.map_singleton]
  have hkinds' : kinds (out ++ err) =
      ls.map LineKind.ofLine ++ LineKind.ofLine (l ++ l') :: ls'.map LineKind.ofLine := by
    rw [kinds, String.toList_append, hjoin, List.map_append, List.map_cons]
  obtain ⟨ys, hys, hclosed, hiff⟩ := parse_congr_last hkinds hkinds' htail hparse
  rw [hlines, hfirst, List.getLast?_concat, List.dropLast_concat, hiff,
    ← joinsQuietly_iff hend hys hclosed]
  simp

theorem lines_trimmed_noise (h : ∀ l ∈ lines err.toList, IsNoise l) :
    ∀ l ∈ lines (trimmed err).toList, LineKind.ofLine l = .noise := by
  intro l hl
  rw [trimmed, String.toList_ofList] at hl
  exact ofLine_noise_of_trimmed h hl

theorem trim_trimmed (s : String) : trim (trimmed s).toList = (trimmed s).toList := by
  rw [trimmed, String.toList_ofList]
  exact trim_eq (fun _ hc => isBlank_of_mem_head?_trim hc) fun _ hc =>
    isBlank_of_mem_getLast?_trim hc

end Trace

namespace ModestTool

variable {σ : Type} {tool : ModestTool} {host : Host σ} {model : Model} {s : σ} {r : ProcessResult}
  {xs : List Sample}

/-- A call of the tool on a model comes to its end. -/
def Exits (tool : ModestTool) (host : Host σ) (profile : Profile) (model : Model) (s : σ)
    (r : ProcessResult) : Prop :=
  ∃ path s₁ s₂, tool.materialize host model s = (.ok path, s₁) ∧
    host.execute tool.executable (profile.arguments path)
      (host.event .debug s!"Running: {tool.commandLine (profile.arguments path)}" s₁) = (.ok r, s₂)

theorem simulate_of_exits (h : tool.Exits host .simulate model s r) (hcode : r.exitCode = some 0) :
    (tool.simulate host model s).1 = .ok (combinedOutput r) := by
  obtain ⟨path, s₁, s₂, hmaterialize, hexecute⟩ := h
  rw [simulate, invoke, hmaterialize]
  dsimp only
  rw [hexecute]
  dsimp only
  rw [simulationOutcome, if_pos hcode]

/-- What the tool writes to its error output leaves the samples of a trace alone just if the error
output, where it follows the last line of the trace, joins that line quietly. -/
theorem stderr_keeps_samples_iff (hexits : tool.Exits host .simulate model s r)
    (hcode : r.exitCode = some 0) (hparse : Trace.parse (decodeLossy r.out) = .ok xs)
    (hnoise : ∀ l ∈ lines (decodeLossy r.err).toList, Trace.IsNoise l) :
    ∃ output, (tool.simulate host model s).1 = .ok output ∧
      (Trace.parse output = .ok xs ↔ ∀ l ∈ (lines (trimmed (decodeLossy r.out)).toList).getLast?,
        ∀ l' ∈ (lines (trimmed (decodeLossy r.err)).toList).head?,
          Trace.JoinsQuietly (Trace.waitingAfter none
            ((lines (trimmed (decodeLossy r.out)).toList).dropLast.map Trace.LineKind.ofLine))
            l l') :=
  ⟨combinedOutput r, simulate_of_exits hexits hcode,
    Trace.parse_append_noise (Trace.parse_trimmed.mpr hparse)
      (Trace.trim_trimmed _) (Trace.trim_trimmed _) (Trace.lines_trimmed_noise hnoise)⟩

/-- A host on which every program writes these texts and exits with code zero. -/
def writingHost (out err : String) : Host Machine :=
  { Machine.host with execute := fun _ _ m => (.ok ⟨out.toUTF8, err.toUTF8, some 0⟩, m) }

def bareTool : ModestTool := ⟨"modest", "w"⟩

theorem exits_writingHost (out err : String) :
    bareTool.Exits (writingHost out err) .simulate (.file "m.modest") {}
      ⟨out.toUTF8, err.toUTF8, some 0⟩ :=
  ⟨_, _, _, rfl, rfl⟩

def remarkedTrace : String := "+ Property P_0\n  Estimated probability: 0.5\n  Runs: 1600\n"

def bareTrace : String := "+ Property P_0\n  Estimated probability: 0.5\n"

def warning : String := "warning: slow\n"

/-- Where the trace ends with a remark, a warning only makes the remark longer. -/
theorem warning_after_remark_keeps_samples :
    ∃ output, (bareTool.simulate (writingHost remarkedTrace warning) (.file "m.modest") {}).1 =
      .ok output ∧ Trace.parse output = .ok [⟨0, Trace.half⟩] := by
  have hparse : Trace.parse (decodeLossy remarkedTrace.toUTF8) = .ok [⟨0, Trace.half⟩] := by
    decide +kernel
  have hnoise : ∀ l ∈ lines (decodeLossy warning.toUTF8).toList, Trace.IsNoise l := by
    decide +kernel
  obtain ⟨output, hsimulate, hiff⟩ :=
    stderr_keeps_samples_iff (exits_writingHost remarkedTrace warning) rfl hparse hnoise
  have hlast : (lines (trimmed (decodeLossy remarkedTrace.toUTF8)).toList).getLast? =
      some "  Runs: 1600".toList := by
    decide +kernel
  have hfirst : (lines (trimmed (decodeLossy warning.toUTF8)).toList).head? =
      some warning.toList.dropLast := by
    decide +kernel
  have hwait : Trace.waitingAfter none
      ((lines (trimmed (decodeLossy remarkedTrace.toUTF8)).toList).dropLast.map
      Trace.LineKind.ofLine) = none := by
    decide +kernel
  have hjoined : Trace.LineKind.ofLine ("  Runs: 1600".toList ++ warning.toList.dropLast) =
      .noise := by
    decide +kernel
  refine ⟨output, hsimulate, hiff.mpr ?_⟩
  rw [hlast, hfirst, hwait]
  rintro l ⟨⟩ l' ⟨⟩ name hname
  rw [hjoined] at hname
  cases hname

/-- A warning right behind a value spoils it. -/
theorem stderr_can_spoil_samples :
    ¬ ∀ (tool : ModestTool) (host : Host Machine) (model : Model) (m : Machine)
      (r : ProcessResult) (xs : List Sample),
      tool.Exits host .simulate model m r → r.exitCode = some 0 →
        Trace.parse (decodeLossy r.out) = .ok xs →
        (∀ l ∈ lines (decodeLossy r.err).toList, Trace.IsNoise l) →
        ∃ output, (tool.simulate host model m).1 = .ok output ∧ Trace.parse output = .ok xs := by
  intro h
  have hexits := exits_writingHost bareTrace warning
  have hbefore : Trace.parse (decodeLossy bareTrace.toUTF8) = .ok [⟨0, Trace.half⟩] := by
    decide +kernel
  have hnoise : ∀ l ∈ lines (decodeLossy warning.toUTF8).toList, Trace.IsNoise l := by
    decide +kernel
  have hafter : Trace.parse (combinedOutput ⟨bareTrace.toUTF8, warning.toUTF8, some 0⟩) ≠
      .ok [⟨0, Trace.half⟩] := by
    decide +kernel
  obtain ⟨output, hsimulate, hparse⟩ := h bareTool _ _ _ _ _ hexits rfl hbefore hnoise
  rw [simulate_of_exits hexits rfl] at hsimulate
  rw [← Except.ok.inj hsimulate] at hparse
  exact hafter hparse

end ModestTool

end NoiseTimeline
