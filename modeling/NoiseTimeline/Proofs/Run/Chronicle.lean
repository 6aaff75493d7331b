import NoiseTimeline.Proofs.Run.Inquiry
import NoiseTimeline.Proofs.Run.Progress
import NoiseTimeline.Proofs.Run.Stored
import NoiseTimeline.Proofs.Run.Success
import NoiseTimeline.Proofs.Trace.Grammar

/-! What a run log tells. After the header stands one block for each window that was
attempted, and what was answered about the window decides what its block says. -/

namespace NoiseTimeline

variable {σ : Type}

def infoLine (message : String) : String := "  [info]: " ++ message ++ "\n"

def warningLine (message : String) : String := "  [warning]: " ++ message ++ "\n"

def parseErrorLine (message : String) : String := "  [parse-error]: " ++ message ++ "\n"

def keptLine (kept : Option String) : String :=
  kept.elim "" fun path => warningLine ("model kept at " ++ path)

/-- Output of the checker as it is, between two line ends. -/
def verbatim (text : String) : String := "\n" ++ text ++ "\n"

/-- What was asked about a window, with the answers and the path of the model if it was kept; the
samples that this adds to those before; and the block of the log. -/
inductive LogBlock (c : RunConfig) (w : Window) (before : Timeline) :
    List Deed → Option String → List Sample → String → Prop
  | notRendered (cause : RenderError) :
      LogBlock c w before [.rendered (.ofWindow c w) (.error cause)] none []
        (warningLine ("Clock cycle block " ++ w.boundsText ++ " failed to render: " ++
          cause.message ++ ". Skipping..."))
  | notChecked (text : String) (cause : CheckerError) (kept : Option String) :
      LogBlock c w before
        [.rendered (.ofWindow c w) (.ok text),
          .called .check (.text (RenderRequest.ofWindow c w).label text) (.error cause)]
        kept []
        (warningLine ("Clock cycle block " ++ w.boundsText ++ " failed to check: " ++
          cause.message ++ ". Skipping...") ++ keptLine kept)
  | checked (text report : String) (kept : Option String) :
      LogBlock c w before
        [.rendered (.ofWindow c w) (.ok text),
          .called .check (.text (RenderRequest.ofWindow c w).label text) (.ok report)]
        kept []
        (infoLine ("finished clock cycle block " ++ w.boundsText ++
          " but probs were not calculated") ++ verbatim report ++ keptLine kept)
  | notSimulated (text : String) (cause : CheckerError) (kept : Option String) :
      LogBlock c w before
        [.rendered (.ofWindow c w) (.ok text),
          .called .simulate (.text (RenderRequest.ofWindow c w).label text) (.error cause)]
        kept []
        (warningLine ("Clock cycle block " ++ w.boundsText ++ " failed to simulate: " ++
          cause.message ++ ". Skipping analysis...") ++ keptLine kept)
  | unreadable (text trace : String) (cause : TraceError) (kept : Option String) :
      LogBlock c w before
        [.rendered (.ofWindow c w) (.ok text),
          .called .simulate (.text (RenderRequest.ofWindow c w).label text) (.ok trace),
          .parsed trace (.error cause)]
        kept []
        (parseErrorLine ("Clock cycle block " ++ w.boundsText ++
          " produced an unreadable trace: " ++ cause.message ++ ". Skipping analysis...") ++
          verbatim trace ++ keptLine kept)
  | simulated (text trace : String) (samples : List Sample) (kept : Option String)
      {line : String} (hline : ProgressLine w before samples line) :
      LogBlock c w before
        [.rendered (.ofWindow c w) (.ok text),
          .called .simulate (.text (RenderRequest.ofWindow c w).label text) (.ok trace),
          .parsed trace (.ok samples)]
        kept samples (infoLine line ++ verbatim trace ++ keptLine kept)

/-- The blocks of some windows, one after the other. -/
inductive LogBody (c : RunConfig) :
    Timeline → List Window → List Deed → List (Option String) → String → Prop
  | done {before : Timeline} : LogBody c before [] [] [] ""
  | next {before : Timeline} {w : Window} {ws : List Window} {ds ds' : List Deed}
      {kept : Option String} {kepts : List (Option String)} {samples : List Sample}
      {block rest : String} (first : LogBlock c w before ds kept samples block)
      (others : LogBody c (before ++ samples) ws ds' kepts rest) :
      LogBody c before (w :: ws) (ds ++ ds') (kept :: kepts) (block ++ rest)

def givenUpLine : StopReason → String
  | .failureLimit skips =>
    warningLine ("gave up after " ++ toString skips ++ " consecutive skipped blocks, stopping")
  | .horizonExhausted | .saturated _ _ => ""

theorem RunLog.contents_warn (message : String) :
    contents [.warn message] = warningLine message := by
  rw [contents, List.map_singleton, String.join_cons, String.join_nil, String.append_empty]
  rfl

theorem RunLog.contents_info_raw (message text : String) :
    contents [.info message, .raw text] = infoLine message ++ verbatim text := by
  rw [contents, List.map_cons, List.map_singleton, String.join_cons, String.join_cons,
    String.join_nil, String.append_empty]
  rfl

theorem RunLog.contents_parseError_raw (message text : String) :
    contents [.parseError message, .raw text] = parseErrorLine message ++ verbatim text := by
  rw [contents, List.map_cons, List.map_singleton, String.join_cons, String.join_cons,
    String.join_nil, String.append_empty]
  rfl

theorem RunLog.contents_keptEntries (kept : Option String) :
    contents (keptEntries kept) = keptLine kept := by
  cases kept with
  | none => exact String.join_nil
  | some path => exact contents_warn ("model kept at " ++ path)

theorem RunLog.contents_stopEntries (reason : StopReason) :
    contents (Run.stopEntries reason) = givenUpLine reason := by
  cases reason with
  | failureLimit skips =>
    have hend : " consecutive skipped blocks" ++ ", stopping" =
        " consecutive skipped blocks, stopping" := by decide
    rw [givenUpLine, ← hend, ← String.append_assoc]
    exact contents_warn _
  | horizonExhausted => exact String.join_nil
  | saturated clockCycle pMax => exact String.join_nil

theorem Consulted.logBlock {c : RunConfig} {w : Window} {text : String} {mode : Mode}
    {ds : List Deed} {a : Attempt}
    (h : Consulted (.text (RenderRequest.ofWindow c w).label text) mode ds a) (before : Timeline)
    (kept : Option String) :
    LogBlock c w before (.rendered (.ofWindow c w) (.ok text) :: ds) kept a.samples
      (RunLog.contents (a.entries w ((before ++ a.samples).maxProbability.getD .zero)) ++
        keptLine kept) := by
  unfold Attempt.entries
  rw [w.text_eq_boundsText]
  cases h with
  | notChecked cause =>
    dsimp only
    rw [RunLog.contents_warn]
    exact .notChecked text cause kept
  | checked report =>
    dsimp only
    rw [RunLog.contents_info_raw]
    exact .checked text report kept
  | notSimulated cause =>
    dsimp only
    rw [RunLog.contents_warn]
    exact .notSimulated text cause kept
  | unreadable trace cause =>
    dsimp only
    rw [RunLog.contents_parseError_raw]
    exact .unreadable text trace cause kept
  | simulated trace samples =>
    dsimp only
    rw [RunLog.contents_info_raw]
    exact .simulated text trace samples kept (progressLine_progressText w before samples)

namespace Run

variable {r : Run σ} {elapsed : Elapsed} {s s' : σ}

def kepts (r : Run σ) : List Window → RunState → σ → List (Option String)
  | [], _, _ => []
  | w :: ws, st, s => r.kept? w st s :: kepts r ws (r.visit w st s).2.1 (r.visit w st s).2.2

theorem logBlock_inquiry (r : Run σ) (w : Window) (st : RunState) (s : σ) :
    LogBlock r.config w st.timeline (r.inquiry w s) (r.kept? w st s) (r.visit w st s).1.samples
      (RunLog.contents ((r.visit w st s).1.entries w (st.record (r.visit w st s).1).pMax) ++
        keptLine (r.kept? w st s)) := by
  rcases hrender : r.collaborators.render (.ofWindow r.config w) s with ⟨answer, s'⟩
  cases answer with
  | error cause =>
    have hkept : keptLine none = "" := rfl
    rw [kept?_of_render_error hrender, visit_of_render_error hrender,
      inquiry_of_render_error hrender, hkept, String.append_empty]
    unfold Attempt.entries
    rw [w.text_eq_boundsText]
    dsimp only
    rw [RunLog.contents_warn]
    exact .notRendered cause
  | ok text =>
    rw [visit_fst_of_render_ok hrender, inquiry_of_render_ok hrender]
    exact (r.collaborators.consulted _ _ s').logBlock st.timeline _

theorem logBody_course (r : Run σ) (ws : List Window) (st : RunState) (s : σ) :
    ∃ body, LogBody r.config st.timeline ws (r.inquiries ws st s) (r.kepts ws st s) body ∧
      RunLog.contents (r.course ws st s).2.1.entries = RunLog.contents st.entries ++ body := by
  induction ws generalizing st s with
  | nil => exact ⟨"", .done, String.append_empty.symm⟩
  | cons w ws ih =>
    obtain ⟨rest, hrest, hcontents⟩ := ih (r.visit w st s).2.1 (r.visit w st s).2.2
    have hblock := logBlock_inquiry r w st s
    have htimeline : (r.visit w st s).2.1.timeline = st.timeline ++ (r.visit w st s).1.samples := by
      rw [visit_state]
      rfl
    rw [htimeline] at hrest
    refine ⟨_, .next hblock hrest, ?_⟩
    rw [course]
    dsimp only
    rw [hcontents, visit_state, RunState.note, RunLog.contents_append, RunLog.contents_append,
      RunLog.contents_keptEntries, String.append_assoc, String.append_assoc]
    rfl

theorem getLast?_header (c : RunConfig) (mode : Mode) :
    (c.header mode).toList.getLast? = some '\n' := by
  have hlines : ∀ line (lines : List String),
      (String.join ((line :: lines).map (· ++ "\n"))).toList.getLast? = some '\n' := by
    intro line lines
    induction lines generalizing line with
    | nil => simp
    | cons next lines ih =>
      rw [List.map_cons, String.join_cons, String.toList_append, List.getLast?_append, ih next]
      rfl
  exact hlines _ _

theorem contents_openingEntries (r : Run σ) :
    RunLog.contents r.openingEntries = r.config.header r.mode := by
  have hheader : (LogEntry.header (r.config.header r.mode)).persisted = r.config.header r.mode :=
    if_pos (getLast?_header r.config r.mode)
  rw [RunLog.contents, openingEntries, List.map_cons, List.map_singleton, String.join_cons,
    String.join_cons, String.join_nil, String.append_empty, hheader]
  exact String.append_empty

/-- The text of the log is made of the header, the blocks of the windows and the last lines. -/
theorem exists_logBody {o : RunOutcome} (h : r.execute elapsed s = (.ok o, s')) :
    ∃ body, LogBody r.config [] (r.planner.windows.take o.attempted)
        (r.inquiries (r.planner.windows.take o.attempted) r.opening (r.opened s))
        (r.kepts (r.planner.windows.take o.attempted) r.opening (r.opened s)) body ∧
      r.log elapsed s =
        r.config.header r.mode ++ body ++ givenUpLine o.stopReason ++ "\nTotal elapsed time: " ++
          elapsed.text ++ "\n" := by
  obtain ⟨body, hbody, hcontents⟩ :=
    logBody_course r (r.planner.windows.take o.attempted) r.opening (r.opened s)
  refine ⟨body, hbody, ?_⟩
  obtain ⟨n, -, reason, hconducted, hn⟩ := r.conducted_eq_after s
  have houtcome := (storing_of_execute_ok h).2
  have hcount : o.attempted = n := (congrArg RunOutcome.attempted houtcome).trans hn
  have hreason : o.stopReason = reason :=
    (congrArg RunOutcome.stopReason houtcome).trans (congrArg (·.1.1) hconducted)
  have hentries : RunLog.contents (r.conducted s).1.2.entries =
      r.config.header r.mode ++ body ++ givenUpLine o.stopReason := by
    rw [hcount] at hcontents
    rw [hconducted, RunState.note, RunLog.contents_append, RunLog.contents_stopEntries, hreason,
      after, hcontents, opening, RunState.note, List.nil_append, contents_openingEntries]
  rw [log_eq, hentries]

/-- The log of a run that ends well consists of the header, of one block for each window attempted
in the order of the windows, of a line in case the run has given up, and of the time it has
taken. -/
theorem log_accounts_for_every_window {o : RunOutcome} (h : r.execute elapsed s = (.ok o, s')) :
    ∃ j ds body, r.journaled.execute elapsed ⟨s, []⟩ = (.ok o, j) ∧
      j.questions = .asked (.ok ()) :: ds ∧ o.attempted ≤ r.planner.windows.length ∧
      LogBody r.config [] (r.planner.windows.take o.attempted) ds
        (r.kepts (r.planner.windows.take o.attempted) r.opening (r.opened s)) body ∧
      ∀ {tree cwd}, r.host.HasFiles tree cwd → (tree s').read (cwd s') o.artifacts.runLog =
        .ok (r.config.header r.mode ++ body ++ givenUpLine o.stopReason ++
          "\nTotal elapsed time: " ++ elapsed.text ++ "\n").toUTF8 := by
  obtain ⟨j, hj, -, hattempted, hquestions⟩ := questions_of_execute_ok h
  obtain ⟨body, hbody, hlog⟩ := exists_logBody h
  refine ⟨j, _, body, hj, hquestions, hattempted, hbody, ?_⟩
  intro tree cwd hf
  rw [← hlog]
  exact (read_execute hf h).2

def wearySamples : List Sample :=
  [⟨0, .zero⟩, ⟨1, Trace.half⟩, ⟨2, Trace.half⟩, ⟨3, .zero⟩]

/-- It keeps the models that render, cannot read its second trace, has no third model, and has a
checker that fails on the fourth. -/
def wearyRun : Run Machine where
  config := { size := 2, property := .irDrop }
  mode := .simulate
  failureLimit := some 3
  resultDir := "r"
  collaborators := { Collaborators.reciting [("(0,49)", wearySamples)] with
    render := fun request s =>
      (if request.window.lower = 100 then .error (.unresolvedPlaceholder "X")
        else .ok request.window.text, s)
    call := fun _ model s =>
      (if model.content? = some "(150,199)" then .error (.reportedError "modest" "deadlock")
        else .ok (model.content?.getD ""), s)
    keptModel := fun model _ => model.content? }
  host := Machine.host

def wearyOutcome : RunOutcome :=
  ⟨.simulate, .failureLimit 3, 4, 3, wearySamples, ⟨0, 0⟩, .within "r" wearyRun.config⟩

def wearyLog : String :=
  "Simulation parameters:\n  Size: 2x2\n  Noise Type: RESISTIVE\n  Clock Upper Bound: None\n" ++
  "  Threshold: 1\n  Stride: 1\n  Block Size: 50\n" ++
  "  [info]: finished clock cycle block (0,49). P: [0.000, 0.500, 0.500...0.500, 0.500, 0.000]. " ++
  "Pmax: 0.500\n\n(0,49)\n  [warning]: model kept at (0,49)\n" ++
  "  [parse-error]: Clock cycle block (50,99) produced an unreadable trace: trace contains no " ++
  "per-cycle probability results. Skipping analysis...\n\n(50,99)\n" ++
  "  [warning]: model kept at (50,99)\n" ++
  "  [warning]: Clock cycle block (100,149) failed to render: Unresolved placeholder 'X' in " ++
  "model template. Skipping...\n" ++
  "  [warning]: Clock cycle block (150,199) failed to simulate: modest reported an error: " ++
  "deadlock. Skipping analysis...\n  [warning]: model kept at (150,199)\n" ++
  "  [warning]: gave up after 3 consecutive skipped blocks, stopping\n" ++
  "\nTotal elapsed time: 00:00:00.00\n"

theorem wearyRun_execute : (wearyRun.execute ⟨0, 0⟩ {}).1 = .ok wearyOutcome := by
  have hvalid : wearyRun.config.IsValid := ⟨rfl, by decide, by decide, by decide⟩
  have hstarts : wearyRun.Starts {} := ⟨not_isUnboundedCheck rfl, rfl, _, rfl⟩
  exact hstarts.outcome_of_room hvalid rfl ⟨id, fun _ => id, fun _ _ => id, fun _ => id⟩
    (Machine.hasRoom_empty _) (by decide +kernel)

theorem wearyRun_windows :
    wearyRun.planner.windows.take 4 = [⟨0, 49⟩, ⟨50, 99⟩, ⟨100, 149⟩, ⟨150, 199⟩] := by
  decide +kernel

theorem wearyRun_kepts :
    wearyRun.kepts [⟨0, 49⟩, ⟨50, 99⟩, ⟨100, 149⟩, ⟨150, 199⟩] wearyRun.opening
        (wearyRun.opened {}) =
      [some "(0,49)", some "(50,99)", none, some "(150,199)"] := by
  decide +kernel

theorem wearyRun_log : wearyRun.log ⟨0, 0⟩ {} = wearyLog := by decide +kernel

theorem wearyRun_accounts : ∃ j ds body m,
    wearyRun.journaled.execute ⟨0, 0⟩ ⟨{}, []⟩ = (.ok wearyOutcome, j) ∧
    j.questions = .asked (.ok ()) :: ds ∧
    LogBody wearyRun.config [] [⟨0, 49⟩, ⟨50, 99⟩, ⟨100, 149⟩, ⟨150, 199⟩] ds
      [some "(0,49)", some "(50,99)", none, some "(150,199)"] body ∧
    wearyRun.execute ⟨0, 0⟩ {} = (.ok wearyOutcome, m) ∧
    m.tree.read m.cwd wearyOutcome.artifacts.runLog =
      .ok (wearyRun.config.header .simulate ++ body ++ givenUpLine (.failureLimit 3) ++
        "\nTotal elapsed time: " ++ Elapsed.text ⟨0, 0⟩ ++ "\n").toUTF8 ∧
    m.tree.read m.cwd wearyOutcome.artifacts.runLog = .ok wearyLog.toUTF8 := by
  obtain ⟨m, hm⟩ : ∃ m, wearyRun.execute ⟨0, 0⟩ {} = (.ok wearyOutcome, m) :=
    ⟨_, Prod.fst_eq_iff.mp wearyRun_execute⟩
  obtain ⟨j, ds, body, hj, hquestions, -, hbody, hlog⟩ := log_accounts_for_every_window hm
  have hfour : wearyRun.planner.windows.take wearyOutcome.attempted =
      [⟨0, 49⟩, ⟨50, 99⟩, ⟨100, 149⟩, ⟨150, 199⟩] := wearyRun_windows
  rw [hfour, wearyRun_kepts] at hbody
  refine ⟨j, ds, body, m, hj, hquestions, hbody, hm, hlog Machine.hasFiles_host, ?_⟩
  rw [← wearyRun_log]
  exact (read_execute Machine.hasFiles_host hm).2

end Run

end NoiseTimeline
