import NoiseTimeline.SystemError

/-!
The external model checker as a run sees it: the models handed to it, the two ways to call it, and
the ways in which a call fails.
-/

namespace NoiseTimeline

def errorMarker : String := "error:"

/-- A model: a text with the label that names its handoff file, or a file that exists already. -/
inductive Model where
  | text (label content : String)
  | file (path : String)
  deriving DecidableEq

namespace Model

def content? : Model → Option String
  | .text _ content => some content
  | .file _ => none

end Model

inductive Profile where
  | check
  | simulate
  deriving DecidableEq

namespace Profile

def subcommand : Profile → String
  | .check => "check"
  | .simulate => "simulate"

def arguments (profile : Profile) (model : String) : List String :=
  match profile with
  | .check => [profile.subcommand, "--unsafe", "--chainopt", "-D", model]
  | .simulate => [profile.subcommand, model, "--max-run-length", "0", "--unsafe"]

end Profile

inductive CheckerError where
  | toolNotFound (tool : String)
  | spawnFailed (tool : String) (cause : IoError)
  | commandFailed (tool : String) (exitCode : Int) (message : String)
  | reportedError (tool message : String)
  | io (operation : String) (cause : IoError)
  deriving DecidableEq

def CheckerError.message : CheckerError → String
  | .toolNotFound tool => s!"{tool} is not on the system's PATH"
  | .spawnFailed tool cause => s!"Failed to run {tool}: {cause.message}"
  | .commandFailed tool exitCode message => s!"{tool} failed with exit code {exitCode}: {message}"
  | .reportedError tool message => s!"{tool} reported an error: {message}"
  | .io operation cause => s!"I/O error while {operation}: {cause.message}"

end NoiseTimeline
