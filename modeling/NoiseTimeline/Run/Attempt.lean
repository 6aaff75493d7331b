import NoiseTimeline.Run.Outcome

/-!
One window of a run. An attempt is what became of the window; the samples it adds, whether it counts
as skipped and its block in the run log follow from it.
-/

namespace NoiseTimeline

/-- What a run asks of others. The answers may depend on a state of any type and change it. -/
structure Collaborators (σ : Type) where
  toolName : String
  ensureAvailable : σ → Except CheckerError Unit × σ
  render : RenderRequest → σ → Except RenderError String × σ
  call : Profile → Model → σ → Except CheckerError String × σ
  keptModel : Model → σ → Option String
  parse : String → σ → Except TraceError (List Sample) × σ

inductive Attempt where
  | renderFailed (cause : RenderError)
  | checked (report : String)
  | checkFailed (cause : CheckerError)
  | simulated (samples : List Sample) (trace : String)
  | simulateFailed (cause : CheckerError)
  | unreadable (cause : TraceError) (trace : String)
  deriving DecidableEq

namespace Attempt

def isSkipped : Attempt → Bool
  | .checked _ | .simulated _ _ => false
  | .renderFailed _ | .checkFailed _ | .simulateFailed _ | .unreadable _ _ => true

def samples : Attempt → List Sample
  | .simulated samples _ => samples
  | _ => []

def outside (a : Attempt) (w : Window) : List Sample :=
  a.samples.filter fun s => !w.contains s.clockCycle

/-- The log entries of an attempt; `pMax` is the running maximum with its samples included. -/
def entries (a : Attempt) (w : Window) (pMax : Binary64) : List LogEntry :=
  let block := s!"Clock cycle block {w.text}"
  match a with
  | .renderFailed cause => [.warn s!"{block} failed to render: {cause.message}. Skipping..."]
  | .checked report =>
    [.info s!"finished clock cycle block {w.text} but probs were not calculated", .raw report]
  | .checkFailed cause => [.warn s!"{block} failed to check: {cause.message}. Skipping..."]
  | .simulated samples trace => [.info (progressText w samples pMax), .raw trace]
  | .simulateFailed cause =>
    [.warn s!"{block} failed to simulate: {cause.message}. Skipping analysis..."]
  | .unreadable cause trace =>
    [.parseError s!"{block} produced an unreadable trace: {cause.message}. Skipping analysis...",
      .raw trace]

/-- Hands a rendered model to the checker and, in a simulation, its output to the parser. -/
def ofModel {σ : Type} (c : Collaborators σ) (mode : Mode) (model : Model) (s : σ) : Attempt × σ :=
  match mode with
  | .check =>
    match c.call .check model s with
    | (.ok report, s) => (.checked report, s)
    | (.error e, s) => (.checkFailed e, s)
  | .simulate =>
    match c.call .simulate model s with
    | (.error e, s) => (.simulateFailed e, s)
    | (.ok trace, s) =>
      match c.parse trace s with
      | (.ok samples, s) => (.simulated samples trace, s)
      | (.error e, s) => (.unreadable e trace, s)

end Attempt

def keptEntries (kept : Option String) : List LogEntry :=
  kept.toList.map fun path => .warn s!"model kept at {path}"

end NoiseTimeline
