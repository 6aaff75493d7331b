import NoiseTimeline.Run.Attempt
import NoiseTimeline.Store.Host
import NoiseTimeline.Store.Path
import NoiseTimeline.Text.Blank
import NoiseTimeline.Text.Lines
import NoiseTimeline.Text.Quoted
import NoiseTimeline.Text.Search
import NoiseTimeline.Text.Utf8

/-!
The Modest toolset as a checker. A model given as text is put into a handoff file, which is removed
after the call unless the output has the error marker in it; whether the call succeeded is decided
by its exit code.
-/

namespace NoiseTimeline

structure ModestTool where
  executable : String
  workDir : String

namespace ModestTool

variable {σ : Type}

def defaultExecutable : String := "modest"

def name (tool : ModestTool) : String := (Path.fileName? tool.executable).getD defaultExecutable

/-- A label with the characters replaced that file names should not have. -/
def sanitized (label : String) : String :=
  String.ofList (label.toList.map fun c => if "/\\:*?\"<>| ".toList.contains c then '_' else c)

def handoffPath (tool : ModestTool) (label : String) : String :=
  Path.join tool.workDir (sanitized label ++ ".modest")

/-- Output and error output of a program, each without blanks at its ends. -/
def combinedOutput (r : ProcessResult) : String :=
  Text.trimmed (Text.decodeLossy r.out) ++ Text.trimmed (Text.decodeLossy r.err)

def reportsError (output : String) : Bool := Text.contains errorMarker.toList output.toList

def firstErrorLine (output : String) : String :=
  match (Text.lines output.toList).find? (Text.contains errorMarker.toList) with
  | some line => String.ofList (Text.trim line)
  | none => ""

def lastLine (output : String) : String :=
  match (Text.lines output.toList).getLast? with
  | some line => String.ofList (Text.trim line)
  | none => ""

structure Invocation where
  output : String
  exitCode : Option Nat

def findExecutable (host : Host σ) (tool : String) (s : σ) : Except CheckerError String × σ :=
  match host.findExecutable tool s with
  | some path => (.ok path, s)
  | none =>
    (.error (.toolNotFound tool),
      host.event .debug s!"Lookup of '{tool}' failed: cannot find binary path" s)

def ensureAvailable (tool : ModestTool) (host : Host σ) (s : σ) : Except CheckerError Unit × σ :=
  match findExecutable host tool.executable s with
  | (.ok _, s) => (.ok (), s)
  | (.error e, s) => (.error e, s)

/-- The path to pass to the tool, after the handoff file of a text model has been written. -/
def materialize (tool : ModestTool) (host : Host σ) (model : Model) (s : σ) :
    Except CheckerError String × σ :=
  match model with
  | .file path => (.ok path, s)
  | .text label content =>
    match host.makeDirectories tool.workDir s with
    | (.error e, s) => (.error (.io "creating work directory" e), s)
    | (.ok (), s) =>
      let path := tool.handoffPath label
      match host.writeFile path content s with
      | (.error e, s) => (.error (.io "writing model handoff file" e), s)
      | (.ok (), s) => (.ok path, s)

/-- Removes the handoff file of a text model; a model in a file of its own stays. -/
def discard (host : Host σ) (model : Model) (path : String) (s : σ) : σ :=
  match model with
  | .file _ => s
  | .text _ _ =>
    match host.remove path s with
    | (.ok (), s) => s
    | (.error e, s) =>
      host.event .warn s!"Failed to remove model handoff file {path}: {e.message}" s

/-- Keeps the handoff file of a text model if the output reports an error, and removes it
otherwise. -/
def settle (host : Host σ) (model : Model) (path output : String) (s : σ) : σ :=
  if reportsError output then
    match model with
    | .file _ => s
    | .text _ _ => host.event .debug s!"Keeping model handoff file {path} for inspection" s
  else discard host model path s

def commandLine (tool : ModestTool) (arguments : List String) : String :=
  Text.joined " " ((tool.executable :: arguments).map Text.quoted)

def invoke (tool : ModestTool) (host : Host σ) (profile : Profile) (model : Model) (s : σ) :
    Except CheckerError Invocation × σ :=
  match tool.materialize host model s with
  | (.error e, s) => (.error e, s)
  | (.ok path, s) =>
    let arguments := profile.arguments path
    let s := host.event .debug s!"Running: {tool.commandLine arguments}" s
    match host.execute tool.executable arguments s with
    | (.error e, s) => (.error (.spawnFailed tool.name e), discard host model path s)
    | (.ok result, s) =>
      let output := combinedOutput result
      (.ok ⟨output, result.exitCode⟩, settle host model path output s)

def check (tool : ModestTool) (host : Host σ) (model : Model) (s : σ) :
    Except CheckerError String × σ :=
  match tool.invoke host .check model s with
  | (.error e, s) => (.error e, s)
  | (.ok i, s) =>
    (.ok i.output,
      match i.exitCode with
      | some (code + 1) => host.event .debug s!"{tool.name} check exited with code {code + 1}" s
      | _ => s)

/-- What a finished simulation means: only exit code zero makes its output a trace. -/
def simulationOutcome (tool : ModestTool) (i : Invocation) : Except CheckerError String :=
  if i.exitCode = some 0 then .ok i.output
  else if reportsError i.output then .error (.reportedError tool.name (firstErrorLine i.output))
  else .error (.commandFailed tool.name ((i.exitCode.map Int.ofNat).getD (-1)) (lastLine i.output))

def simulate (tool : ModestTool) (host : Host σ) (model : Model) (s : σ) :
    Except CheckerError String × σ :=
  match tool.invoke host .simulate model s with
  | (.error e, s) => (.error e, s)
  | (.ok i, s) => (tool.simulationOutcome i, s)

def keptModel (tool : ModestTool) (disk : Disk σ) (model : Model) (s : σ) : Option String :=
  match model with
  | .file _ => none
  | .text label _ =>
    if disk.fileExists (tool.handoffPath label) s then some (tool.handoffPath label) else none

/-- The collaborators of a run that fills in a template and has the tool judge it. -/
def collaborators (tool : ModestTool) (host : Host σ) (template : String) : Collaborators σ where
  toolName := tool.name
  ensureAvailable := tool.ensureAvailable host
  render request s := (Template.render template request, s)
  call profile model s :=
    match profile with
    | .check => tool.check host model s
    | .simulate => tool.simulate host model s
  keptModel := tool.keptModel host.toDisk
  parse trace s := (Trace.parse trace, s)

def version (host : Host σ) (path : String) (s : σ) : Except CheckerError String × σ :=
  match host.execute path ["--version"] s with
  | (.error e, s) => (.error (.spawnFailed path e), s)
  | (.ok result, s) => (.ok ((Text.linesOf (combinedOutput result)).head?.getD ""), s)

def discover (host : Host σ) (tool : String) (s : σ) : Except CheckerError (String × String) × σ :=
  match findExecutable host tool s with
  | (.error e, s) => (.error e, s)
  | (.ok path, s) =>
    match version host path s with
    | (.error e, s) => (.error e, s)
    | (.ok version, s) => (.ok (path, version), host.event .info s!"Found {tool}: {version}" s)

end ModestTool

end NoiseTimeline
