import NoiseTimeline.Proofs.Checker.Handoff
import NoiseTimeline.Proofs.Text.Occurrence
import NoiseTimeline.Shell.Host

/-! What a finished call is taken for. The output is searched for the error marker to settle the
handoff file, to tell two failures apart, and line by line for a message. The three searches
agree. -/

namespace NoiseTimeline.ModestTool

open Text

variable {σ : Type} {tool : ModestTool} {host : Host σ} {tree : σ → FileTree} {cwd : σ → Location}
  {profile : Profile} {model : Model} {label content path output message : String}
  {r : ProcessResult} {i : Invocation}
    {s s' s₁ s₂ : σ}
  {answer : Except CheckerError String}

/-- The two calls under one name. -/
def call (tool : ModestTool) (host : Host σ) (profile : Profile) (model : Model) (s : σ) :
    Except CheckerError String × σ :=
  match profile with
  | .check => tool.check host model s
  | .simulate => tool.simulate host model s

def Reports (output : String) : Prop := errorMarker.toList <:+: output.toList

/-- The first line with the error marker, without the blanks around it. -/
def IsFirstReport (output message : String) : Prop :=
  ∃ before line after, lines output.toList = before ++ line :: after ∧
    (∀ l ∈ before, ¬ errorMarker.toList <:+: l) ∧
    errorMarker.toList <:+: line ∧ message.toList = trim line

theorem reportsError_iff : reportsError output = true ↔ Reports output := contains_iff_infix

theorem not_reports_empty : ¬ Reports "" := by
  rw [Reports]
  decide

theorem exists_line_reports_iff :
    (∃ l ∈ lines output.toList, errorMarker.toList <:+: l) ↔ Reports output :=
  exists_line_infix_iff (by decide) (by decide) (by decide)

theorem marker_infix_trim_iff {l : List Char} :
    errorMarker.toList <:+: trim l ↔ errorMarker.toList <:+: l :=
  infix_trim_iff (by decide)

theorem newline_not_mem_trim {l : List Char} (h : '\n' ∉ l) : '\n' ∉ trim l :=
  fun hmem => h ((infix_trim l).subset hmem)

theorem IsFirstReport.reports (h : IsFirstReport output message) :
    Reports message ∧ '\n' ∉ message.toList := by
  obtain ⟨before, line, after, hlines, -, hline, hmessage⟩ := h
  have hmem : line ∈ lines output.toList := by simp [hlines]
  rw [Reports, hmessage]
  exact ⟨marker_infix_trim_iff.mpr hline, newline_not_mem_trim (newline_not_mem_of_mem_lines hmem)⟩

theorem isFirstReport_firstErrorLine (h : Reports output) :
    IsFirstReport output (firstErrorLine output) := by
  obtain ⟨l, hl, hmarker⟩ := exists_line_reports_iff.mpr h
  rw [firstErrorLine]
  split
  · rename_i line hfind
    obtain ⟨hline, before, after, hlines, hbefore⟩ := List.find?_eq_some_iff_append.mp hfind
    refine ⟨before, line, after, hlines, fun m hm hinfix => ?_, contains_iff_infix.mp hline,
      String.toList_ofList⟩
    have hnone := hbefore m hm
    rw [Bool.not_eq_true', ← Bool.not_eq_true, contains_iff_infix] at hnone
    exact hnone hinfix
  · rename_i hfind
    exact absurd hmarker (mt contains_iff_infix.mpr (List.find?_eq_none.mp hfind l hl))

theorem lastLine_quiet (h : ¬ Reports output) :
    ¬ Reports (lastLine output) ∧ '\n' ∉ (lastLine output).toList := by
  rw [lastLine]
  split
  · rename_i line hlast
    have hmem : line ∈ lines output.toList := List.mem_of_getLast? hlast
    rw [Reports, String.toList_ofList, marker_infix_trim_iff]
    exact ⟨fun hline => h (exists_line_reports_iff.mp ⟨line, hmem, hline⟩),
      newline_not_mem_trim (newline_not_mem_of_mem_lines hmem)⟩
  · exact ⟨not_reports_empty, by decide⟩

/-! One law for each way in which a simulation can end. -/

theorem simulationOutcome_cases (tool : ModestTool) (i : Invocation) :
    (i.exitCode = some 0 → tool.simulationOutcome i = .ok i.output) ∧
    (i.exitCode ≠ some 0 → Reports i.output →
      tool.simulationOutcome i = .error (.reportedError tool.name (firstErrorLine i.output))) ∧
    (i.exitCode ≠ some 0 → ¬ Reports i.output →
      tool.simulationOutcome i =
        .error
          (.commandFailed tool.name ((i.exitCode.map Int.ofNat).getD (-1))
            (lastLine i.output))) := by
  rw [simulationOutcome]
  refine ⟨fun hcode => if_pos hcode, fun hcode hreports => ?_, fun hcode hquiet => ?_⟩
  · rw [if_neg hcode, if_pos (reportsError_iff.mpr hreports)]
  · rw [if_neg hcode, if_neg (mt reportsError_iff.mp hquiet)]

theorem simulationOutcome_eq_ok_iff {o : String} :
    tool.simulationOutcome i = .ok o ↔ i.exitCode = some 0 ∧ o = i.output := by
  obtain ⟨hok, hreported, hfailed⟩ := simulationOutcome_cases tool i
  by_cases hcode : i.exitCode = some 0
  · rw [hok hcode, Except.ok.injEq, eq_comm]
    simp [hcode]
  · by_cases hreports : Reports i.output
    · simp [hreported hcode hreports, hcode]
    · simp [hfailed hcode hreports, hcode]

theorem simulationOutcome_eq_reportedError_iff {t m : String} :
    tool.simulationOutcome i = .error (.reportedError t m) ↔
      i.exitCode ≠ some 0 ∧ Reports i.output ∧ t = tool.name ∧ m = firstErrorLine i.output := by
  obtain ⟨hok, hreported, hfailed⟩ := simulationOutcome_cases tool i
  by_cases hcode : i.exitCode = some 0
  · simp [hok hcode, hcode]
  · by_cases hreports : Reports i.output
    · simp [hreported hcode hreports, hcode, hreports, eq_comm]
    · simp [hfailed hcode hreports, hreports]

theorem simulationOutcome_eq_commandFailed_iff {t m : String} {code : Int} :
    tool.simulationOutcome i = .error (.commandFailed t code m) ↔
      i.exitCode ≠ some 0 ∧ ¬ Reports i.output ∧ t = tool.name ∧
        code = (i.exitCode.map Int.ofNat).getD (-1) ∧ m = lastLine i.output := by
  obtain ⟨hok, hreported, hfailed⟩ := simulationOutcome_cases tool i
  by_cases hcode : i.exitCode = some 0
  · simp [hok hcode, hcode]
  · by_cases hreports : Reports i.output
    · simp [hreported hcode hreports, hreports]
    · simp [hfailed hcode hreports, hcode, hreports, eq_comm]

/-! What a call does to files. -/

section Files

theorem handoffPath_of_materialize
    (h : tool.materialize host (.text label content) s = (.ok path, s')) :
    path = tool.handoffPath label := by
  rw [materialize] at h
  dsimp only at h
  split at h
  · cases h
  · split at h
    · cases h
    · cases h
      rfl

theorem call_fst_of_invoke (h : tool.invoke host profile model s = (.ok i, s')) :
    (profile = .check → (tool.call host profile model s).1 = .ok i.output) ∧
    (profile = .simulate → (tool.call host profile model s).1 = tool.simulationOutcome i) := by
  constructor
  · rintro rfl
    rw [call, check, h]
  · rintro rfl
    rw [call, simulate, h]

variable (hf : host.Confined tree cwd)

include hf

theorem call_files (tool : ModestTool) (profile : Profile) (model : Model) (s : σ) :
    tree (tool.call host profile model s).2 = tree (tool.invoke host profile model s).2 ∧
      cwd (tool.call host profile model s).2 = cwd (tool.invoke host profile model s).2 := by
  cases profile with
  | check =>
    rw [call, check]
    rcases tool.invoke host .check model s with ⟨answer, s'⟩
    cases answer with
    | error e => exact ⟨rfl, rfl⟩
    | ok i =>
      dsimp only
      split
      · exact hf.say _ s'
      · exact ⟨rfl, rfl⟩
  | simulate =>
    rw [call, simulate]
    rcases tool.invoke host .simulate model s with ⟨answer, s'⟩
    cases answer <;> exact ⟨rfl, rfl⟩

theorem gone_of_remove (h : host.remove path s = (.ok (), s')) :
    tree s' ≠ tree s ∧ (tree s').exists? (cwd s') path = false := by
  obtain ⟨hr, hcwd⟩ := hf.remove h
  have hdirs := (FileTree.touches_of_removeFile hr).directories
  obtain ⟨l, bytes, executable, hl, hnode, hroot, herase⟩ := FileTree.removeFile_eq_ok hr
  have hnone : (tree s').node? l = none := by
    rw [herase, FileTree.node?_erase hroot, if_pos rfl]
  constructor
  · intro hsame
    rw [hsame, hnode] at hnone
    cases hnone
  · rw [FileTree.exists?, FileTree.find, hcwd, hdirs.locate_eq hl]
    simp only [bind, Except.bind, hnone]
    rfl

theorem settle_of_reports (h : Reports output) (label content path : String) (s : σ) :
    tree (settle host (.text label content) path output s) = tree s ∧
      cwd (settle host (.text label content) path output s) = cwd s := by
  rw [settle, if_pos (reportsError_iff.mpr h)]
  exact hf.say _ s

theorem settle_of_quiet (h : ¬ Reports output) (label content : String)
    (hok : (host.remove path s).1.isOk = true) :
    tree (settle host (.text label content) path output s) ≠ tree s ∧
      (tree (settle host (.text label content) path output s)).exists?
        (cwd (settle host (.text label content) path output s)) path = false := by
  rw [settle, if_neg (mt reportsError_iff.mp h), discard]
  rcases hremove : host.remove path s with ⟨answer, s'⟩
  rw [hremove] at hok
  cases answer with
  | error e => cases hok
  | ok _ => exact gone_of_remove hf hremove

theorem kept_iff_reports (hwritten : tool.materialize host (.text label content) s = (.ok path, s₁))
    (hran : tool.process host profile path s₁ = (.ok r, s₂))
    (hremoves : ¬ Reports (combinedOutput r) → (host.remove path s₂).1.isOk = true) :
    (tree (tool.call host profile (.text label content) s).2 = tree s₂ ↔
      Reports (combinedOutput r)) ∧
    (host.fileExists path s₂ = true →
      (tool.keptModel host.toDisk (.text label content)
        (tool.call host profile (.text label content) s).2 = some path ↔
        Reports (combinedOutput r))) := by
  obtain ⟨htree, hcwd⟩ := call_files hf tool profile (.text label content) s
  have hinvoke : tool.invoke host profile (.text label content) s = _ :=
    invoke_of_materialize hwritten
  rw [hran] at hinvoke
  rw [hinvoke] at htree hcwd
  dsimp only at htree hcwd
  rw [handoffPath_of_materialize hwritten] at *
  rw [keptModel, hf.fileExists, hf.fileExists, htree, hcwd]
  by_cases hreports : Reports (combinedOutput r)
  · obtain ⟨hsame, hhere⟩ := settle_of_reports hf hreports label content (tool.handoffPath label) s₂
    rw [hsame, hhere]
    simp +contextual [hreports]
  · obtain ⟨hother, hgone⟩ := settle_of_quiet hf hreports label content (hremoves hreports)
    rw [hgone]
    simp [hreports, hother]

end Files

theorem file_model_untouched (hf : host.Confined tree cwd) (tool : ModestTool) (profile : Profile)
    (file : String) (s : σ) {l : Location}
    (hprogram : ∀ b, (tree (host.execute tool.executable (profile.arguments file) b).2).node? l =
      (tree b).node? l) :
    (tree (tool.call host profile (.file file) s).2).node? l = (tree s).node? l := by
  obtain ⟨htree, -⟩ := call_files hf tool profile (.file file) s
  have hmessage :=
    (hf.say (.event .debug s!"Running: {tool.commandLine (profile.arguments file)}") s).1
  have hgiven : tool.materialize host (.file file) s = (.ok file, s) := rfl
  rw [htree, invoke_of_materialize hgiven]
  have hran :=
    hprogram (host.event .debug s!"Running: {tool.commandLine (profile.arguments file)}" s)
  rw [Host.event, hmessage] at hran
  rw [process, Host.event]
  rcases hexecute : host.execute tool.executable (profile.arguments file)
    (host.say (.event .debug s!"Running: {tool.commandLine (profile.arguments file)}") s)
    with ⟨answer, s₂⟩
  rw [hexecute] at hran
  cases answer with
  | error e => exact hran
  | ok result =>
    dsimp only
    rw [settle]
    split <;> exact hran

/-- What a finished call on a text gives. A check gives its output whatever the exit code; a
simulation gives it if the code is zero, and else fails with the first line that reports an error
or, where none does, with the last line. It fails with a reported error just if the handoff file is
kept. The file of a model that has its own is left alone. -/
theorem outcome_agrees_with_keeping (hf : host.Confined tree cwd)
    (hwritten : tool.materialize host (.text label content) s = (.ok path, s₁))
    (hran : tool.process host profile path s₁ = (.ok r, s₂))
    (hremoves : ¬ Reports (combinedOutput r) → (host.remove path s₂).1.isOk = true)
    (hcall : tool.call host profile (.text label content) s = (answer, s')) :
    (profile = .check → answer = .ok (trimmed (decodeLossy r.out) ++ trimmed (decodeLossy r.err))) ∧
    (profile = .simulate →
      (∀ o, answer = .ok o ↔ r.exitCode = some 0 ∧
        o = trimmed (decodeLossy r.out) ++ trimmed (decodeLossy r.err)) ∧
      ((∃ t m, answer = .error (.reportedError t m)) ↔
        r.exitCode ≠ some 0 ∧ Reports (combinedOutput r)) ∧
      ((∃ t code m, answer = .error (.commandFailed t code m)) ↔
        r.exitCode ≠ some 0 ∧ ¬ Reports (combinedOutput r))) ∧
    (∀ t m, answer = .error (.reportedError t m) →
      t = tool.name ∧ IsFirstReport (combinedOutput r) m ∧ Reports m ∧ m ≠ "" ∧ '\n' ∉ m.toList) ∧
    (∀ t code m, answer = .error (.commandFailed t code m) →
      t = tool.name ∧ (∀ n, r.exitCode = some n → code = n) ∧ (r.exitCode = none → code = -1) ∧
        ¬ Reports m ∧ '\n' ∉ m.toList) ∧
    (∀ e, answer = .error e →
      ((∃ t m, e = .reportedError t m) ↔ tree s' = tree s₂) ∧
      (host.fileExists path s₂ = true →
        ((∃ t m, e = .reportedError t m) ↔
          tool.keptModel host.toDisk (.text label content) s' = some path))) ∧
    ∀ profile file a l,
      (∀ b, (tree (host.execute tool.executable (profile.arguments file) b).2).node? l =
        (tree b).node? l) →
        (tree (tool.call host profile (.file file) a).2).node? l = (tree a).node? l ∧
        tool.keptModel host.toDisk (.file file) (tool.call host profile (.file file) a).2 =
          none := by
  obtain ⟨hsame, hkept⟩ := kept_iff_reports hf hwritten hran hremoves
  have hinvoke : tool.invoke host profile (.text label content) s = _ :=
    invoke_of_materialize hwritten
  rw [hran] at hinvoke
  obtain ⟨hcheck, hsimulate⟩ := call_fst_of_invoke hinvoke
  rw [hcall] at hsame hkept hcheck hsimulate
  dsimp only at hsame hkept hcheck hsimulate
  have hfailed : ∀ e, answer = .error e →
      tool.simulationOutcome ⟨combinedOutput r, r.exitCode⟩ = .error e := by
    intro e he
    cases profile with
    | check =>
      rw [hcheck rfl] at he
      cases he
    | simulate => exact (hsimulate rfl).symm.trans he
  refine ⟨hcheck, fun hprofile => ?_, fun t m h => ?_, fun t code m h => ?_, fun e h => ?_,
    fun profile file a l hprogram => ?_⟩
  · rw [hsimulate hprofile]
    simp only [simulationOutcome_eq_ok_iff, simulationOutcome_eq_reportedError_iff,
      simulationOutcome_eq_commandFailed_iff]
    refine ⟨fun o => Iff.rfl, ?_, ?_⟩ <;> simp
  · obtain ⟨-, hreports, hname, hmessage⟩ := simulationOutcome_eq_reportedError_iff.mp (hfailed _ h)
    have hfirst : IsFirstReport (combinedOutput r) m := by
      rw [hmessage]
      exact isFirstReport_firstErrorLine hreports
    obtain ⟨hmarker, hline⟩ := hfirst.reports
    exact ⟨hname, hfirst, hmarker, fun hempty => not_reports_empty (hempty ▸ hmarker), hline⟩
  · obtain ⟨-, hquiet, hname, hcode, hmessage⟩ :=
      simulationOutcome_eq_commandFailed_iff.mp (hfailed _ h)
    rw [hcode, hmessage]
    refine ⟨hname, fun n hn => ?_, fun hn => ?_, lastLine_quiet hquiet⟩
    · rw [hn]
      rfl
    · rw [hn]
      rfl
  · have hreported : (∃ t m, e = .reportedError t m) ↔ Reports (combinedOutput r) := by
      constructor
      · rintro ⟨t, m, rfl⟩
        exact (simulationOutcome_eq_reportedError_iff.mp (hfailed _ h)).2.1
      · intro hreports
        by_cases hcode : r.exitCode = some 0
        · have hok := (simulationOutcome_cases tool ⟨combinedOutput r, r.exitCode⟩).1 hcode
          cases hok.symm.trans (hfailed e h)
        · have herror :=
            (simulationOutcome_cases tool ⟨combinedOutput r, r.exitCode⟩).2.1 hcode hreports
          exact ⟨_, _, Except.error.inj ((hfailed e h).symm.trans herror)⟩
    rw [hreported]
    exact ⟨hsame.symm, fun hleft => (hkept hleft).symm⟩
  · exact ⟨file_model_untouched hf tool profile file a hprogram, rfl⟩

/-- The marker stands only where the error output follows the output, and a signal ends the tool. -/
def splitResult : ProcessResult := ⟨"Loading\n type err\n".toUTF8, "or: unknown\n".toUTF8, none⟩

def splitHost : Host Machine := { Machine.host with execute := fun _ _ m => (.ok splitResult, m) }

theorem confined_splitHost : splitHost.Confined Machine.tree Machine.cwd :=
  { Machine.confined_host with }

def splitTool : ModestTool := ⟨"/opt/modest", "w"⟩

def splitModel : Model := .text "2x2 0/49" "model"

def splitAnswer : Except CheckerError String × Machine :=
  splitTool.call splitHost .simulate splitModel {}

theorem splitAnswer_reported :
    splitAnswer.1 = .error (.reportedError "modest" "type error: unknown") ∧
      splitTool.keptModel splitHost.toDisk splitModel splitAnswer.2 = some "w/2x2_0_49.modest" := by
  have hanswer : splitAnswer.1 = .error (.reportedError "modest" "type error: unknown") := by
    decide +kernel
  have hpath : (splitTool.materialize splitHost splitModel {}).1 = .ok "w/2x2_0_49.modest" := by
    decide +kernel
  have hleft : splitHost.fileExists "w/2x2_0_49.modest"
      (splitTool.process splitHost .simulate "w/2x2_0_49.modest"
    (splitTool.materialize splitHost splitModel {}).2).2 = true := by decide +kernel
  have hreports : Reports (combinedOutput splitResult) := reportsError_iff.mp (by decide +kernel)
  rcases hwritten : splitTool.materialize splitHost splitModel {} with ⟨path, s₁⟩
  rw [hwritten] at hpath hleft
  dsimp only at hpath hleft
  rw [hpath] at hwritten
  rcases hran : splitTool.process splitHost .simulate "w/2x2_0_49.modest" s₁ with ⟨result, s₂⟩
  have hresult : result = .ok splitResult := (congrArg Prod.fst hran).symm
  rw [hran] at hleft
  rw [hresult] at hran
  obtain ⟨-, -, -, -, hkept, -⟩ :=
    outcome_agrees_with_keeping confined_splitHost hwritten hran (fun h => absurd hreports h)
      (rfl : _ = (splitAnswer.1, splitAnswer.2))
  obtain ⟨-, hiff⟩ := hkept _ hanswer
  exact ⟨hanswer, (hiff hleft).mp ⟨_, _, rfl⟩⟩

end NoiseTimeline.ModestTool
