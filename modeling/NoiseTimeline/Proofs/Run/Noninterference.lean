import NoiseTimeline.Proofs.Run.Answers
import NoiseTimeline.Proofs.Run.Stored
import NoiseTimeline.Proofs.Run.Success

/-! What a run shows and where it takes place do not matter for what it finds. Two runs by
the same rules ask the same questions, come to the same end and store the same texts. -/

namespace NoiseTimeline.Run

variable {σ τ : Type}

/-- Two runs for which the same is to be done by the same rules. They may show it differently and be
on different hosts. -/
structure Alike (q : Run τ) (r : Run σ) (a : Answers) (kept : Model → Option String) : Prop where
  config : q.config = r.config
  mode : q.mode = r.mode
  failureLimit : q.failureLimit = r.failureLimit
  resultDir : q.resultDir = r.resultDir
  toolName : q.collaborators.toolName = r.collaborators.toolName
  answers : q.collaborators.GivenBy a ∧ r.collaborators.GivenBy a
  kept : (∀ model t, q.collaborators.keptModel model t = kept model) ∧
    ∀ model s, r.collaborators.keptModel model s = kept model

section Alike

variable {q : Run τ} {r : Run σ} {a : Answers} {kept : Model → Option String}
  {elapsed elapsed' : Elapsed} {t t' : τ} {s s' : σ} {o o' : RunOutcome}

theorem Alike.simulates (h : q.Alike r a kept) : q.Simulates r fun _ _ => True where
  config := h.config
  mode := h.mode
  failureLimit := h.failureLimit
  render request t s _ := ⟨h.answers.1.render_eq h.answers.2 request t s, trivial⟩
  call profile model t s _ := ⟨h.answers.1.call_eq h.answers.2 profile model t s, trivial⟩
  parse trace t s _ := ⟨h.answers.1.parse_eq h.answers.2 trace t s, trivial⟩
  keptModel model t s _ := (h.kept.1 model t).trans (h.kept.2 model s).symm
  present _ _ _ _ := trivial
  event _ _ _ _ _ := trivial

variable (h : q.Alike r a kept) (hq : q.execute elapsed t = (.ok o, t'))
  (hr : r.execute elapsed' s = (.ok o', s'))

include h hq hr

theorem Alike.conducted_eq : (q.conducted t).1 = (r.conducted s).1 := by
  obtain ⟨-, hqavailable, hqfollow, -⟩ := execute_eq_ok_cases hq
  obtain ⟨-, hravailable, hrfollow, -⟩ := execute_eq_ok_cases hr
  have hfollow :=
    (h.simulates.follow_opened h.toolName ⟨hqavailable.trans hravailable.symm, trivial⟩).1
  rw [hqfollow, hrfollow] at hfollow
  exact Except.ok.inj hfollow

theorem Alike.outcome_eq : o' = { o with elapsed := elapsed' } := by
  have hqoutcome := (storing_of_execute_ok hq).2
  have hroutcome := (storing_of_execute_ok hr).2
  have hartifacts : o'.artifacts = o.artifacts := by
    rw [artifacts_of_execute_ok hq, artifacts_of_execute_ok hr, h.config, h.resultDir]
  rw [hroutcome, hqoutcome, outcome, outcome, h.conducted_eq hq hr, h.mode, hartifacts]

theorem Alike.questions_eq :
    (q.journaled.execute elapsed ⟨t, []⟩).2.questions =
      (r.journaled.execute elapsed' ⟨s, []⟩).2.questions := by
  obtain ⟨j, hj, -, -, hqquestions⟩ := questions_of_execute_ok hq
  obtain ⟨k, hk, -, -, hrquestions⟩ := questions_of_execute_ok hr
  have hattempted : o.attempted = o'.attempted := by rw [h.outcome_eq hq hr]
  have hplanner : q.planner = r.planner := by rw [planner, planner, h.config]
  have hrequest : RenderRequest.ofWindow q.config = RenderRequest.ofWindow r.config := by
    rw [h.config]
  rw [hj, hk, hqquestions, hrquestions, hattempted, hplanner,
    inquiries_congr h.answers.1 h.answers.2 h.mode hrequest _ q.opening r.opening (q.opened t)
      (r.opened s)]

end Alike

/-- Neither what is shown of a run nor the time it takes nor what was stored before has any
influence. Two runs by the same rules that store their results ask the same in the same order and
have the same outcome. The bytes of their timelines are the same, and those of their logs up to the
time in the last line. -/
theorem logging_does_not_interfere {q : Run τ} {r : Run σ} {a : Answers}
    {kept : Model → Option String} {elapsed elapsed' : Elapsed} {t t' : τ} {s s' : σ}
    {o o' : RunOutcome} (h : q.Alike r a kept) (hq : q.execute elapsed t = (.ok o, t'))
    (hr : r.execute elapsed' s = (.ok o', s')) :
    o' = { o with elapsed := elapsed' } ∧
    (q.journaled.execute elapsed ⟨t, []⟩).2.questions =
      (r.journaled.execute elapsed' ⟨s, []⟩).2.questions ∧
    ∃ csv log : String,
      ∀ {treeq : τ → FileTree} {cwdq : τ → Location} {treer : σ → FileTree} {cwdr : σ → Location},
      q.host.HasFiles treeq cwdq → r.host.HasFiles treer cwdr →
      (treeq t').read (cwdq t') o.artifacts.csv = .ok csv.toUTF8 ∧
      (treer s').read (cwdr s') o'.artifacts.csv = .ok csv.toUTF8 ∧
      (treeq t').read (cwdq t') o.artifacts.runLog =
        .ok (log ++ "\nTotal elapsed time: " ++ elapsed.text ++ "\n").toUTF8 ∧
      (treer s').read (cwdr s') o'.artifacts.runLog =
        .ok (log ++ "\nTotal elapsed time: " ++ elapsed'.text ++ "\n").toUTF8 := by
  have houtcome := h.outcome_eq hq hr
  have htimeline : o'.timeline = o.timeline := by rw [houtcome]
  have hentries : (r.conducted s).1.2.entries = (q.conducted t).1.2.entries := by
    rw [h.conducted_eq hq hr]
  refine ⟨houtcome, h.questions_eq hq hr, TimelineCsv.write o.timeline,
    RunLog.contents (q.conducted t).1.2.entries, ?_⟩
  intro treeq cwdq treer cwdr hfq hfr
  obtain ⟨hqcsv, hqlog⟩ := read_execute hfq hq
  obtain ⟨hrcsv, hrlog⟩ := read_execute hfr hr
  rw [log_eq] at hqlog hrlog
  rw [htimeline] at hrcsv
  rw [hentries] at hrlog
  exact ⟨hqcsv, hrcsv, hqlog, hrlog⟩

def toldTable : List (String × List Sample) := [("(0,49)", [⟨0, .zero⟩])]

/-- A run that keeps all its models and cannot read its second trace. -/
def toldRun (logConfig : LogConfig) (echo : Bool) : Run Machine where
  config := { size := 2, property := .irDrop, horizon := some 99 }
  mode := .simulate
  logConfig := logConfig
  echo := echo
  resultDir := "r"
  collaborators := { Collaborators.reciting toldTable with keptModel := fun _ _ => some "m" }
  host := Machine.host

/-- Where an earlier run has left a timeline. -/
def usedMachine : Machine where
  tree :=
    ⟨[(["r"], .directory), (["r", (toldRun {} false).config.csvName], .file "old".toUTF8 false)]⟩

def toldOutcome (elapsed : Elapsed) : RunOutcome :=
  ⟨.simulate, .horizonExhausted, 2, 1, [⟨0, .zero⟩], elapsed, .within "r" (toldRun {} false).config⟩

theorem toldRun_execute :
    ((toldRun {} false).execute ⟨0, 0⟩ {}).1 = .ok (toldOutcome ⟨0, 0⟩) ∧
    ((toldRun ⟨.debug, true⟩ true).execute ⟨61, 5⟩ usedMachine).1 = .ok (toldOutcome ⟨61, 5⟩) := by
  have hvalid : (toldRun {} false).config.IsValid := ⟨rfl, by decide, by decide, by decide⟩
  have hquiet : (toldRun {} false).Starts {} := ⟨not_isUnboundedCheck rfl, rfl, _, rfl⟩
  have hloud : (toldRun ⟨.debug, true⟩ true).Starts usedMachine :=
    ⟨not_isUnboundedCheck rfl, rfl, _, rfl⟩
  have hlocate : usedMachine.tree.locate usedMachine.cwd "r" = .ok ["r"] := by decide +kernel
  have hused : usedMachine.HasRoom "r" (toldRun {} false).config :=
    Machine.hasRoom_of_shallow hlocate (Or.inl rfl) (by decide)
  constructor
  · exact hquiet.outcome_of_room hvalid rfl ⟨id, fun _ => id, fun _ _ => id, fun _ => id⟩
      (Machine.hasRoom_empty _) (by decide +kernel)
  · exact hloud.outcome_of_room (r := toldRun ⟨.debug, true⟩ true) hvalid rfl
      ⟨id, fun _ => id, fun _ _ => id, fun _ => id⟩
      hused (by decide +kernel)

theorem toldRun_does_not_interfere :
    ((toldRun {} false).journaled.execute ⟨0, 0⟩ ⟨{}, []⟩).2.questions =
      ((toldRun ⟨.debug, true⟩ true).journaled.execute ⟨61, 5⟩ ⟨usedMachine, []⟩).2.questions ∧
    ∃ (m m' : Machine) (csv log : String),
      (toldRun {} false).execute ⟨0, 0⟩ {} = (.ok (toldOutcome ⟨0, 0⟩), m) ∧
      (toldRun ⟨.debug, true⟩ true).execute ⟨61, 5⟩ usedMachine = (.ok (toldOutcome ⟨61, 5⟩), m') ∧
      m.tree.read m.cwd (toldOutcome ⟨0, 0⟩).artifacts.csv = .ok csv.toUTF8 ∧
      m'.tree.read m'.cwd (toldOutcome ⟨61, 5⟩).artifacts.csv = .ok csv.toUTF8 ∧
      m.tree.read m.cwd (toldOutcome ⟨0, 0⟩).artifacts.runLog =
        .ok (log ++ "\nTotal elapsed time: " ++ Elapsed.text ⟨0, 0⟩ ++ "\n").toUTF8 ∧
      m'.tree.read m'.cwd (toldOutcome ⟨61, 5⟩).artifacts.runLog =
        .ok (log ++ "\nTotal elapsed time: " ++ Elapsed.text ⟨61, 5⟩ ++ "\n").toUTF8 := by
  have halike : (toldRun {} false).Alike (toldRun ⟨.debug, true⟩ true) (.reciting toldTable)
      fun _ => some "m" := by
    have hanswers := Collaborators.reciting_givenBy toldTable
    exact ⟨rfl, rfl, rfl, rfl, rfl, ⟨⟨hanswers.render, hanswers.call, hanswers.parse⟩,
      ⟨hanswers.render, hanswers.call, hanswers.parse⟩⟩, fun _ _ => rfl, fun _ _ => rfl⟩
  obtain ⟨hquiet, hloud⟩ := toldRun_execute
  obtain ⟨m, hq⟩ : ∃ m, (toldRun {} false).execute ⟨0, 0⟩ {} = (.ok (toldOutcome ⟨0, 0⟩), m) :=
    ⟨_, Prod.fst_eq_iff.mp hquiet⟩
  obtain ⟨m', hr⟩ : ∃ m', (toldRun ⟨.debug, true⟩ true).execute ⟨61, 5⟩ usedMachine =
      (.ok (toldOutcome ⟨61, 5⟩), m') :=
    ⟨_, Prod.fst_eq_iff.mp hloud⟩
  obtain ⟨-, hquestions, csv, log, hstored⟩ := logging_does_not_interfere halike hq hr
  exact ⟨hquestions, m, m', csv, log, hq, hr, hstored Machine.hasFiles_host Machine.hasFiles_host⟩

end NoiseTimeline.Run
