import NoiseTimeline.Config
import NoiseTimeline.Json.Reader
import NoiseTimeline.Json.Value
import NoiseTimeline.RecordFormat
import NoiseTimeline.Run.Outcome

/-!
The domain's records as JSON. Reading checks the form of a record, not the rules that a
configuration has to keep.
-/

namespace NoiseTimeline

def JsonTree.slots? (names : List String) : JsonTree → Option (List (Slot JsonTree))
  | .list items => Slot.ofList true names.length items
  | .record fields =>
    match fields.mapM fun f => f.1.map (·, f.2) with
    | some fields => Slot.ofFields names fields
    | none => none
  | _ => none

def JsonTree.isNull : JsonTree → Bool
  | .null => true
  | _ => false

def jsonFormat : RecordFormat JsonTree where
  slots? := JsonTree.slots?
  count? := JsonTree.count?
  text? := JsonTree.text?
  bool? := JsonTree.bool?
  choice? := JsonTree.choice? some

namespace Window

def toJson (w : Window) : Json := .record [("lower", .count w.lower), ("upper", .count w.upper)]

def ofJson? (j : JsonTree) : Option Window := do
  match ← j.slots? ["lower", "upper"] with
  | [lower, upper] =>
    some ⟨← lower.required (JsonTree.count? wordLimit),
      ← upper.required (JsonTree.count? wordLimit)⟩
  | _ => none

end Window

namespace Sample

def toJson (s : Sample) : Json :=
  .record [("clock_cycle", .count s.clockCycle), ("probability", .real s.probability)]

def ofJson? (j : JsonTree) : Option Sample := do
  match ← j.slots? ["clock_cycle", "probability"] with
  | [clockCycle, probability] =>
    some ⟨← clockCycle.required (JsonTree.count? wordLimit), ← probability.required JsonTree.real?⟩
  | _ => none

end Sample

namespace Timeline

def toJson (t : Timeline) : Json := .list (t.map Sample.toJson)

def ofJson? : JsonTree → Option Timeline
  | .list items => items.mapM Sample.ofJson?
  | _ => none

end Timeline

namespace NoiseProperty

def toJson (p : NoiseProperty) : Json := .text p.token

def ofJson? (j : JsonTree) : Option NoiseProperty := j.choice? ofToken?

end NoiseProperty

namespace Mode

def all : List Mode := [.simulate, .check]

def toJson (m : Mode) : Json := .text m.token

def ofJson? (j : JsonTree) : Option Mode := j.choice? fun s => all.find? fun m => m.token == s

end Mode

namespace LogLevel

def toJson (l : LogLevel) : Json := .text l.token

def ofJson? (j : JsonTree) : Option LogLevel := j.choice? ofToken?

end LogLevel

namespace RunConfig

def toJson (c : RunConfig) : Json := .record [
  ("size", .count c.size),
  ("property", c.property.toJson),
  ("horizon", .option .count c.horizon),
  ("threshold", .count c.threshold),
  ("stride", .count c.stride),
  ("block_size", .count c.blockSize),
  ("flit_generation", .option .text c.flits)]

def fieldNames : List String :=
  ["size", "property", "horizon", "threshold", "stride", "block_size", "flit_generation"]

/-- A configuration of the right form, whether or not it keeps the rules. -/
def ofJson? (j : JsonTree) : Option RunConfig := do
  match ← j.slots? fieldNames with
  | [size, property, horizon, threshold, stride, blockSize, flits] =>
    some {
      size := ← size.required (JsonTree.count? halfWordLimit)
      property := ← property.required NoiseProperty.ofJson?
      horizon := ← horizon.optional JsonTree.isNull (JsonTree.count? wordLimit)
      threshold := ← threshold.required (JsonTree.count? halfWordLimit)
      stride := ← stride.required (JsonTree.count? wordLimit)
      blockSize := ← blockSize.required (JsonTree.count? wordLimit)
      flits := ← flits.optional JsonTree.isNull JsonTree.text? }
  | _ => none

end RunConfig

def StopReason.toJson : StopReason → Json
  | .horizonExhausted => .record [("reason", .text "horizon_exhausted")]
  | .saturated clockCycle pMax =>
    .record [("reason", .text "saturated"), ("clock_cycle", .count clockCycle),
      ("p_max", .real pMax)]
  | .failureLimit skips =>
    .record [("reason", .text "failure_limit"), ("consecutive_skips", .count skips)]

def RunOutcome.toJson (o : RunOutcome) : Json := .record [
  ("mode", o.mode.toJson),
  ("stop_reason", o.stopReason.toJson),
  ("windows_attempted", .count o.attempted),
  ("windows_skipped", .count o.skipped),
  ("timeline", o.timeline.toJson),
  ("elapsed", .text o.elapsed.text),
  ("artifacts", .record [("csv", .text o.artifacts.csv), ("run_log", .text o.artifacts.runLog)])]

end NoiseTimeline
