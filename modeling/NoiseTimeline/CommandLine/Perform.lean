import NoiseTimeline.Chart.Batch
import NoiseTimeline.CommandLine.Arguments
import NoiseTimeline.Json.Records
import NoiseTimeline.ModestTool
import NoiseTimeline.Run.Loop
import NoiseTimeline.Settings.Language

/-!
Commands carried out on a host. Each reads the settings first, and says what it has done in lines
for the standard output; the first error ends it.
-/

namespace NoiseTimeline

inductive CommandError where
  | settings (path : String) (cause : SettingsError)
  | directories (cause : SettingsError)
  | config (cause : ConfigFault)
  | template (cause : RenderError)
  | run (cause : RunError)
  | chart (cause : ChartError)
  | checker (cause : CheckerError)

def CommandError.message : CommandError → String
  | .settings path _ => s!"Failed to load config {path}"
  | .directories _ => "Failed to create result, plot and work folders"
  | .config cause => cause.message
  | .template cause => cause.message
  | .run cause => cause.message
  | .chart cause => cause.message
  | .checker cause => cause.message

namespace CommandLine

variable {σ : Type}

abbrev Result (σ α : Type) := Except CommandError α × σ

def answer (host : Host σ) (lines : List String) (s : σ) : σ :=
  lines.foldl (fun s line => host.say (.answer line) s) s

/-- The configuration of a run: the settings' one, with what the arguments give instead. -/
def config (settings : Settings) (a : RunArguments) : RunConfig :=
  let c := settings.config a.size a.property
  { c with
    horizon := a.horizon
    flits := a.flits
    threshold := a.threshold.getD c.threshold
    stride := a.stride.getD c.stride
    blockSize := a.blockSize.getD c.blockSize }

def summary (o : RunOutcome) : List String := [
  s!"{o.mode.text} finished: {o.stopReason.text} ({o.timeline.length} samples, " ++
    s!"{o.skipped} of {o.attempted} blocks skipped, {o.elapsed.text})",
  "  " ++ o.artifacts.csv,
  "  " ++ o.artifacts.runLog]

def run (host : Host σ) (elapsed : Elapsed) (settings : Settings) (verbose : Bool)
    (a : RunArguments) (s : σ) :
    Result σ Unit :=
  match (config settings a).validated with
  | .error e => (.error (.config e), s)
  | .ok config =>
    match host.readText a.template s with
    | .error e => (.error (.template (.templateUnreadable a.template e)), s)
    | .ok template =>
      let tool : ModestTool := ⟨settings.checker.executable, settings.paths.work⟩
      let logConfig := settings.logConfig
      let r : Run σ := {
        config
        mode := a.mode
        failureLimit := settings.failureLimit
        logConfig := if verbose then { logConfig with level := .debug } else logConfig
        echo := settings.logging.echo
        resultDir := a.results.getD (settings.resultsFor a.size)
        collaborators := tool.collaborators host template
        host }
      match r.execute elapsed s with
      | (.error e, s) => (.error (.run e), s)
      | (.ok outcome, s) =>
        (.ok (), answer host (if a.json then [outcome.toJson.pretty] else summary outcome) s)

def plot (host : Host σ) (settings : Settings) (results out : Option String)
    (s : σ) : Result σ Unit :=
  match Svg.plotResults host (results.getD settings.paths.results)
    (out.getD settings.paths.plots) s with
  | (.error e, s) => (.error (.chart e), s)
  | (.ok written, s) =>
    (.ok (), host.event .info s!"Wrote {written.length} charts" (answer host written s))

def tool (host : Host σ) (settings : Settings) (s : σ) : Result σ Unit :=
  match ModestTool.discover host settings.checker.executable s with
  | (.error e, s) => (.error (.checker e), s)
  | (.ok (path, version), s) =>
    (.ok (), answer host [s!"Found {settings.checker.executable}: {version}", "  " ++ path] s)

/-- Carries out a task once the settings are at hand; all tasks but one need the directories. -/
def perform (host : Host σ) (elapsed : Elapsed) (i : Invocation) (s : σ) : Result σ Unit :=
  match SettingsFile.loadOrCreate tomlLanguage host { path := i.settingsPath } s with
  | (.error e, _, s) => (.error (.settings i.settingsPath e), s)
  | (.ok (), f, s) =>
    let prepared : Result σ Unit :=
      if i.task = .tool then (.ok (), s)
      else
        match f.makeDirectories host s with
        | (.error e, _, s) => (.error (.directories e), s)
        | (.ok (), _, s) => (.ok (), s)
    match prepared with
    | (.error e, s) => (.error e, s)
    | (.ok (), s) =>
      match i.task with
      | .run a => run host elapsed f.settings i.verbose a s
      | .plot results out => plot host f.settings results out s
      | .tool => tool host f.settings s

/-- How a command ended: its exit code, and what it reports about a failure. -/
structure Ending where
  exitCode : Nat
  report : Option String
  deriving DecidableEq

def versionText : String := "psn-verify 0.1.0"

def respond (host : Host σ) (elapsed : Elapsed) (arguments : List String) (s : σ) : Ending × σ :=
  match read arguments with
  | .error e => (⟨2, some e.message⟩, s)
  | .ok .help => (⟨0, none⟩, s)
  | .ok .version => (⟨0, none⟩, answer host [versionText] s)
  | .ok (.perform i) =>
    match perform host elapsed i s with
    | (.ok (), s) => (⟨0, none⟩, s)
    | (.error e, s) => (⟨1, some e.message⟩, s)

end CommandLine

end NoiseTimeline
