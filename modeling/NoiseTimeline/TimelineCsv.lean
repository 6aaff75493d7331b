import NoiseTimeline.Number.Decimal
import NoiseTimeline.Number.Literal
import NoiseTimeline.Text.Blank
import NoiseTimeline.Text.Lines
import NoiseTimeline.Timeline

/-!
Timelines as comma-separated text: a header row and one row per sample, each ended by carriage
return and line feed. Reading accepts either line end, blank lines and blanks around the fields.
-/

namespace NoiseTimeline

structure MalformedCsv where
  line : Nat
  message : String
  deriving DecidableEq

namespace TimelineCsv

def header : String := "Clock Cycle,Probability"

def row (s : Sample) : String := s!"{s.clockCycle},{s.probability.toText}\r\n"

def write (t : Timeline) : String := String.join ((header ++ "\r\n") :: t.map row)

def fields? (line : List Char) : Option (List Char × List Char) :=
  match line.dropWhile (· != ',') with
  | [] => none
  | _ :: after => some (line.takeWhile (· != ','), after)

def readRow (line : List Char) : Except String Sample :=
  match fields? line with
  | none => .error "expected two columns"
  | some (cycle, probability) =>
    let cycle := Text.trim cycle
    let probability := Text.trim probability
    match readCount wordLimit cycle with
    | .error e => .error s!"bad clock cycle '{String.ofList cycle}': {e.message}"
    | .ok n =>
      match readReal probability with
      | .error e => .error s!"bad probability '{String.ofList probability}': {e.message}"
      | .ok p => .ok ⟨n, p⟩

/-- The samples in the rows from line number `line` on; blank rows count as lines and give no
sample. -/
def readRows (line : Nat) : List (List Char) → Except MalformedCsv Timeline
  | [] => .ok []
  | r :: rest =>
    let r := Text.trim r
    if r.isEmpty then readRows (line + 1) rest
    else
      match readRow r with
      | .error message => .error ⟨line, message⟩
      | .ok sample => (readRows (line + 1) rest).map (sample :: ·)

def parse (text : String) : Except MalformedCsv Timeline :=
  match Text.lines text.toList with
  | [] => .error ⟨1, "empty file"⟩
  | first :: rows =>
    let first := Text.trim first
    if first = header.toList then readRows 2 rows
    else .error ⟨1, s!"unexpected header '{String.ofList first}'"⟩

end TimelineCsv

end NoiseTimeline
