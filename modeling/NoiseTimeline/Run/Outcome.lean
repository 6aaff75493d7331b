import NoiseTimeline.Checker
import NoiseTimeline.Store.Artifacts
import NoiseTimeline.Template
import NoiseTimeline.Trace

/-!
How a run ends: with an outcome and the reason for stopping, or with one of the errors that make the
whole run meaningless.
-/

namespace NoiseTimeline

inductive StopReason where
  | horizonExhausted
  | saturated (clockCycle : Nat) (pMax : Binary64)
  | failureLimit (consecutiveSkips : Nat)
  deriving DecidableEq

def StopReason.text : StopReason → String
  | .horizonExhausted => "clock upper bound reached"
  | .saturated clockCycle pMax => s!"saturated at clock cycle {clockCycle} (Pmax: {pMax.toFixed 5})"
  | .failureLimit skips => s!"gave up after {skips} consecutive skipped blocks"

structure RunOutcome where
  mode : Mode
  stopReason : StopReason
  attempted : Nat
  skipped : Nat
  timeline : Timeline
  elapsed : Elapsed
  artifacts : Artifacts
  deriving DecidableEq

inductive RunError where
  | precondition (cause : CheckerError)
  | unboundedCheck
  | render (window : Window) (cause : RenderError)
  | store (cause : StoreError)
  deriving DecidableEq

namespace RunError

def message : RunError → String
  | .precondition cause => s!"Checker precondition failed: {cause.message}"
  | .unboundedCheck => "Check mode requires a finite clock upper bound"
  | .render window cause =>
    s!"Failed to render model for clock cycle block {window.text}: {cause.message}"
  | .store cause => s!"Failed to persist results: {cause.message}"

def isPrecondition : RunError → Bool
  | .precondition _ | .unboundedCheck => true
  | .render _ _ | .store _ => false

end RunError

end NoiseTimeline
