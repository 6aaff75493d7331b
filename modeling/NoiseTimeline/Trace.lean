import NoiseTimeline.Number.Decimal
import NoiseTimeline.Number.Literal
import NoiseTimeline.Text.Blank
import NoiseTimeline.Text.Lines
import NoiseTimeline.Text.Search
import NoiseTimeline.Timeline

/-!
Simulation traces. A line of a trace is a property header, a probability value or noise. A header
whose name ends in digits opens the result for that clock cycle, and the next header or value must
be its value.
-/

namespace NoiseTimeline

inductive TraceError where
  | noSamples
  | invalidProbability (line : Nat) (value : String)
  | outOfRange (clockCycle : Nat) (value : Binary64)
  | missingProbability (property : String)
  deriving DecidableEq

def TraceError.message : TraceError → String
  | .noSamples => "trace contains no per-cycle probability results"
  | .invalidProbability line value => s!"line {line}: invalid probability '{value}'"
  | .outOfRange clockCycle value =>
    s!"clock cycle {clockCycle}: probability {value.toText} is outside [0, 1]"
  | .missingProbability property => s!"property '{property}' has no probability result"

namespace Trace

def unquoted (s : List Char) : List Char :=
  ((s.dropWhile (· = '"')).reverse.dropWhile (· = '"')).reverse

/-- The name in a header line: an optional plus sign, the word `Property`, a space and the name. -/
def headerName? (line : List Char) : Option (List Char) :=
  let body := (Text.dropPrefix? ['+'] line).getD line
  match Text.dropPrefix? "Property ".toList (Text.trimLeft body) with
  | none => none
  | some rest =>
    let name := unquoted (Text.trim rest)
    if name.isEmpty then none else some name

def cycleSuffix? (name : List Char) : Option Nat :=
  let digits := (name.reverse.takeWhile isDigit).reverse
  (readCount wordLimit digits).toOption

def valueText? (line : List Char) : Option (List Char) :=
  let rest :=
    match Text.dropPrefix? "Estimated probability:".toList line with
    | some rest => some rest
    | none => Text.dropPrefix? "Probability:".toList line
  rest.bind Text.firstWord?

inductive LineKind where
  | header (name : List Char)
  | value (text : List Char)
  | noise
  deriving DecidableEq

def LineKind.ofLine (line : List Char) : LineKind :=
  let line := Text.trim line
  match headerName? line with
  | some name => .header name
  | none =>
    match valueText? line with
    | some text => .value text
    | none => .noise

structure OpenHeader where
  name : List Char
  clockCycle : Nat
  deriving DecidableEq

def OpenHeader.ofName? (name : List Char) : Option OpenHeader :=
  (cycleSuffix? name).map (⟨name, ·⟩)

def OpenHeader.missing (h : OpenHeader) : TraceError := .missingProbability (String.ofList h.name)

def OpenHeader.sample (h : OpenHeader) (line : Nat) (value : List Char) :
    Except TraceError Sample :=
  match readReal value with
  | .error _ => .error (.invalidProbability line (String.ofList value))
  | .ok p =>
    if Binary64.zero.le p && p.le .one then .ok ⟨h.clockCycle, p⟩
    else .error (.outOfRange h.clockCycle p)

/-- The samples of the lines from number `line` on, in the order of the text. -/
def samplesFrom (line : Nat) (waiting : Option OpenHeader) :
    List LineKind → Except TraceError (List Sample)
  | [] =>
    match waiting with
    | some h => .error h.missing
    | none => .ok []
  | .noise :: rest => samplesFrom (line + 1) waiting rest
  | .header name :: rest =>
    match waiting with
    | some h => .error h.missing
    | none => samplesFrom (line + 1) (OpenHeader.ofName? name) rest
  | .value text :: rest =>
    match waiting with
    | none => samplesFrom (line + 1) none rest
    | some h =>
      match h.sample line text with
      | .error e => .error e
      | .ok sample => (samplesFrom (line + 1) none rest).map (sample :: ·)

def kinds (trace : String) : List LineKind := (Text.lines trace.toList).map LineKind.ofLine

/-- The samples of a trace by clock cycle; those of one cycle keep their order. -/
def parse (trace : String) : Except TraceError (List Sample) :=
  match samplesFrom 1 none (kinds trace) with
  | .error e => .error e
  | .ok [] => .error .noSamples
  | .ok samples => .ok (samples.mergeSort fun a b => a.clockCycle ≤ b.clockCycle)

end Trace

end NoiseTimeline
