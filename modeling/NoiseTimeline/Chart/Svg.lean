import NoiseTimeline.Chart.Layout

/-!
Charts as SVG documents, laid out with floating-point numbers. Coordinates have two places; font
sizes are written with the fewest digits that read back.
-/

namespace NoiseTimeline

namespace Binary64

def toFloat (x : Binary64) : Float := Float.ofBits x.bits

def ofFloat (x : Float) : Binary64 := ⟨x.toBits⟩

/-- The greatest power of ten that is not above a positive finite number, rounded to nearest. -/
def powerBelow (x : Binary64) : Binary64 :=
  let (num, den) := x.toRatio
  let k := decade num den
  ofRatio false (Nat.pow 10 k.toNat) (Nat.pow 10 (-k).toNat)

end Binary64

instance : Scalar Float where
  ofRatio num den := (Binary64.ofRatio false num den).toFloat
  ofProbability := Binary64.toFloat
  le x y := x ≤ y
  ceil := Float.ceil
  decade x := (Binary64.ofFloat x).powerBelow.toFloat

namespace Svg

def palette : List String := [
  "#1f77b4", "#ff7f0e", "#2ca02c", "#d62728", "#9467bd", "#8c564b", "#e377c2", "#7f7f7f", "#bcbd22",
  "#17becf"]

def colour (index : Nat) : String := (palette[index % palette.length]?).getD ""

def places (n : Nat) (x : Float) : String := (Binary64.ofFloat x).toFixed n

def coordinate (x : Float) : String := places 2 x

def plain (x : Float) : String := (Binary64.ofFloat x).toText

def assigned (name value : String) : String := s!" {name}=\"{value}\""

def element (name : String) (attributes : List (String × String))
    (content : Option String) : String :=
  let start := s!"<{name}" ++ String.join (attributes.map fun a => assigned a.1 a.2)
  match content with
  | none => start ++ "/>\n"
  | some text => s!"{start}>{text}</{name}>\n"

def line (x1 y1 x2 y2 : Float) (stroke width : String) : String :=
  element "line" [
    ("x1", coordinate x1), ("y1", coordinate y1), ("x2", coordinate x2), ("y2", coordinate y2),
    ("stroke", stroke), ("stroke-width", width)] none

def textAt (x y size : Float) (more : List (String × String)) (content : String) : String :=
  element "text" ([("x", coordinate x), ("y", coordinate y), ("font-size", plain size)] ++ more)
    (some content)

def box (x y width height : Float) (more : List (String × String)) : String :=
  element "rect" ([
    ("x", coordinate x), ("y", coordinate y), ("width", coordinate width),
    ("height", coordinate height)] ++ more)
    none

def pointText (p : Float × Float) : String := coordinate p.1 ++ "," ++ coordinate p.2

def shape : Shape Float → String
  | .background width height =>
    element "rect" [("width", coordinate width), ("height", coordinate height),
      ("fill", "white")] none
  | .gridLine x1 y1 x2 y2 => line x1 y1 x2 y2 "#b0b0b0" "0.8"
  | .xTick x y size value => textAt x y size [("text-anchor", "middle")] (places 0 value)
  | .yTick x y size value => textAt x y size [("text-anchor", "end")] (places 1 value)
  | .frame x y width height =>
    box x y width height [("fill", "none"), ("stroke", "black"), ("stroke-width", "0.8")]
  | .curve index points =>
    element "polyline" [
      ("fill", "none"), ("stroke", colour index), ("stroke-width", "1"),
      ("points", Text.joined " " (points.map pointText))] none
  | .xLabel x y size => textAt x y size [("text-anchor", "middle")] "Clock cycles"
  | .yLabel x y size =>
    textAt x y size [
      ("text-anchor", "middle"), ("transform", s!"rotate(-90 {coordinate x} {coordinate y})")]
      "Probability"
  | .legendBox x y width height =>
    box x y width height [
      ("rx", "2"), ("fill", "white"), ("fill-opacity", "0.8"), ("stroke", "#cccccc"),
      ("stroke-width", "0.8")]
  | .legendLine index x1 y x2 => line x1 y x2 y (colour index) "1"
  | .legendText x y size label => textAt x y size [] label

def document (c : Chart Float) : String :=
  let width := coordinate c.width
  let height := coordinate c.height
  let start := "<svg" ++ String.join ([
    ("xmlns", "http://www.w3.org/2000/svg"), ("width", width ++ "pt"), ("height", height ++ "pt"),
    ("viewBox", s!"0 0 {width} {height}"), ("font-family", "DejaVu Sans, sans-serif")].map
      fun a => assigned a.1 a.2)
  start ++ ">\n" ++ String.join (c.shapes.map shape) ++ "</svg>\n"

def render (size : ChartSize Float) (series : List Series) : String :=
  document (Chart.ofSeries size series)

end Svg

end NoiseTimeline
