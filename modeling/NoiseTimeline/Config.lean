import NoiseTimeline.Number.Literal
import NoiseTimeline.Text.Lines

/-!
What a run is asked to do. A configuration that passes `RunConfig.validated` has no zero where one
is excluded, and its window width fits the clock counter.
-/

namespace NoiseTimeline

inductive NoiseProperty where
  | irDrop
  | diDt
  deriving DecidableEq

namespace NoiseProperty

/-- In the order in which charts are drawn. -/
def all : List NoiseProperty := [.irDrop, .diDt]

def title : NoiseProperty → String
  | .irDrop => "RESISTIVE"
  | .diDt => "INDUCTIVE"

def token : NoiseProperty → String
  | .irDrop => "resistive"
  | .diDt => "inductive"

def ofToken? (s : String) : Option NoiseProperty := all.find? fun p => p.token == s

end NoiseProperty

/-- Statistical simulation that stops once it saturates, or an exhaustive check of each window. -/
inductive Mode where
  | simulate
  | check
  deriving DecidableEq

namespace Mode

def headerTitle : Mode → String
  | .simulate => "Simulation parameters:"
  | .check => "Modest check parameters:"

def text : Mode → String
  | .simulate => "simulation"
  | .check => "check"

def capitalized : Mode → String
  | .simulate => "Simulation"
  | .check => "Check"

def token : Mode → String
  | .simulate => "simulate"
  | .check => "check"

end Mode

structure RunConfig where
  size : Nat
  property : NoiseProperty
  horizon : Option Nat := none
  threshold : Nat := 1
  stride : Nat := 1
  blockSize : Nat := 50
  flits : Option String := none
  deriving DecidableEq

inductive ConfigFault where
  | zero (field : String)
  | blockSizeOverflow (blockSize stride : Nat)
  deriving DecidableEq

def ConfigFault.message : ConfigFault → String
  | .zero field => s!"{field} must be at least 1"
  | .blockSizeOverflow blockSize stride =>
    s!"block size {blockSize} with stride {stride} overflows the clock-cycle range"

namespace RunConfig

def width (c : RunConfig) : Nat := c.blockSize * c.stride

def width? (c : RunConfig) : Option Nat := if c.width < wordLimit then some c.width else none

def validated (c : RunConfig) : Except ConfigFault RunConfig :=
  if c.size = 0 then .error (.zero "size")
  else if c.threshold = 0 then .error (.zero "threshold")
  else if c.stride = 0 then .error (.zero "stride")
  else if c.blockSize = 0 then .error (.zero "block size")
  else if wordLimit ≤ c.width then .error (.blockSizeOverflow c.blockSize c.stride)
  else .ok c

def horizonText (c : RunConfig) : String :=
  match c.horizon with
  | some h => toString h
  | none => "None"

/-- The block at the top of a run log; it names the block size before it is scaled by the stride. -/
def header (c : RunConfig) (mode : Mode) : String :=
  String.join <| [
    mode.headerTitle,
    s!"  Size: {c.size}x{c.size}",
    s!"  Noise Type: {c.property.title}",
    s!"  Clock Upper Bound: {c.horizonText}",
    s!"  Threshold: {c.threshold}",
    s!"  Stride: {c.stride}",
    s!"  Block Size: {c.blockSize}"].map (· ++ "\n")

end RunConfig

end NoiseTimeline
