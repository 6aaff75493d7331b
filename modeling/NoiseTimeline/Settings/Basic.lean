import NoiseTimeline.Config
import NoiseTimeline.Json.Records
import NoiseTimeline.RunLog
import NoiseTimeline.Store.Path

/-!
Settings: directories, the checker's executable, defaults for runs and the console. Each field has a
default, which a record that lacks the field falls back to.
-/

namespace NoiseTimeline

structure PathSettings where
  results : String := "results"
  plots : String := "plot"
  work : String := ".work"
  deriving DecidableEq

structure CheckerSettings where
  executable : String := "modest"
  deriving DecidableEq

structure RunSettings where
  blockSize : Nat := 50
  stride : Nat := 1
  threshold : Nat := 1
  /-- How many windows in a row may be skipped; zero sets no limit. -/
  failureLimit : Nat := 10
  deriving DecidableEq

structure LoggingSettings where
  level : LogLevel := .info
  timestamps : Bool := false
  echo : Bool := true
  deriving DecidableEq

structure Settings where
  paths : PathSettings := {}
  checker : CheckerSettings := {}
  run : RunSettings := {}
  logging : LoggingSettings := {}
  deriving DecidableEq

namespace Settings

def resultsFor (s : Settings) (size : Nat) : String := Path.join s.paths.results s!"{size}x{size}"

def config (s : Settings) (size : Nat) (property : NoiseProperty) : RunConfig :=
  { size, property, blockSize := s.run.blockSize, stride := s.run.stride, threshold :=
    s.run.threshold }

def failureLimit (s : Settings) : Option Nat :=
  if s.run.failureLimit = 0 then none else some s.run.failureLimit

def logConfig (s : Settings) : LogConfig := ⟨s.logging.level, s.logging.timestamps⟩

variable {β : Type} (format : RecordFormat β)

def readPaths (v : β) : Option PathSettings := do
  match ← format.slots? ["results_folder", "plots_folder", "work_folder"] v with
  | [results, plots, work] =>
    some {
      results := ← results.orDefault "results" format.text?
      plots := ← plots.orDefault "plot" format.text?
      work := ← work.orDefault ".work" format.text? }
  | _ => none

def readChecker (v : β) : Option CheckerSettings := do
  match ← format.slots? ["executable"] v with
  | [executable] => some { executable := ← executable.orDefault "modest" format.text? }
  | _ => none

def readRun (v : β) : Option RunSettings := do
  match ← format.slots? ["block_size", "stride", "threshold", "failure_limit"] v with
  | [blockSize, stride, threshold, failureLimit] =>
    some {
      blockSize := ← blockSize.orDefault 50 (format.count? wordLimit)
      stride := ← stride.orDefault 1 (format.count? wordLimit)
      threshold := ← threshold.orDefault 1 (format.count? halfWordLimit)
      failureLimit := ← failureLimit.orDefault 10 (format.count? halfWordLimit) }
  | _ => none

def readLogging (v : β) : Option LoggingSettings := do
  match ← format.slots? ["level", "show_timestamps", "echo"] v with
  | [level, timestamps, echo] =>
    some {
      level := ← level.orDefault .info fun v => (format.choice? v).bind LogLevel.ofToken?
      timestamps := ← timestamps.orDefault false format.bool?
      echo := ← echo.orDefault true format.bool? }
  | _ => none

def read (v : β) : Option Settings := do
  match ← format.slots? ["paths", "checker", "run", "logging"] v with
  | [paths, checker, run, logging] =>
    some {
      paths := ← paths.orDefault {} (readPaths format)
      checker := ← checker.orDefault {} (readChecker format)
      run := ← run.orDefault {} (readRun format)
      logging := ← logging.orDefault {} (readLogging format) }
  | _ => none

end Settings

inductive SettingsSection where
  | paths
  | checker
  | run
  | logging
  deriving DecidableEq

namespace SettingsSection

/-- In the order of the file. -/
def all : List SettingsSection := [.paths, .checker, .run, .logging]

def tableName : SettingsSection → String
  | .paths => "paths"
  | .checker => "checker"
  | .run => "run"
  | .logging => "logging"

def description : SettingsSection → String
  | .paths => "Result, plot and work directories"
  | .checker => "External model checker"
  | .run => "Run defaults (overridable on the command line)"
  | .logging => "Console logging"

end SettingsSection

inductive SettingValue where
  | text (s : String)
  | count (n : Nat)
  | flag (b : Bool)
  deriving DecidableEq

def SettingValue.toJson : SettingValue → Json
  | .text s => .text s
  | .count n => .count n
  | .flag b => .bool b

namespace Settings

def ofSection (s : Settings) : SettingsSection → List (String × SettingValue)
  | .paths => [
    ("results_folder", .text s.paths.results), ("plots_folder", .text s.paths.plots),
    ("work_folder", .text s.paths.work)]
  | .checker => [("executable", .text s.checker.executable)]
  | .run => [
    ("block_size", .count s.run.blockSize), ("stride", .count s.run.stride),
    ("threshold", .count s.run.threshold), ("failure_limit", .count s.run.failureLimit)]
  | .logging => [
    ("level", .text s.logging.level.token), ("show_timestamps", .flag s.logging.timestamps),
    ("echo", .flag s.logging.echo)]

def toJson (s : Settings) : Json :=
  .record (SettingsSection.all.map fun section_ =>
    (section_.tableName, .record ((s.ofSection section_).map fun f => (f.1, f.2.toJson))))

end Settings

end NoiseTimeline
