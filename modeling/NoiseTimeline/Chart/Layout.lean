import NoiseTimeline.Chart.Catalog

/-!
The layout of a line chart, over any kind of numbers: a grid with ticks, clock cycles against
probabilities from zero to one, and a legend in the lower right corner. A chart is a list of shapes.
-/

namespace NoiseTimeline

/-- Numbers that a chart can be laid out with. -/
class Scalar (α : Type) extends Add α, Sub α, Mul α, Div α where
  ofRatio : Nat → Nat → α
  ofProbability : Binary64 → α
  le : α → α → Bool
  ceil : α → α
  /-- The greatest power of ten that is not above a positive number. -/
  decade : α → α

namespace Scalar

variable {α : Type} [Scalar α]

def ofNat (n : Nat) : α := ofRatio n 1

def lt (x y : α) : Bool := le x y && !le y x

/-- The greater of two numbers that compare. -/
def max (x y : α) : α := if le x y then y else x

/-- The number itself inside the unit interval or when it does not compare, else the nearer end. -/
def clampUnit (x : α) : α :=
  if lt x (ofNat 0) then ofNat 0 else if lt (ofNat 1) x then ofNat 1 else x

end Scalar

structure ChartSize (α : Type) where
  width : α
  height : α
  labelSize : α
  tickSize : α

inductive Shape (α : Type) where
  | background (width height : α)
  | gridLine (x1 y1 x2 y2 : α)
  | xTick (x y size value : α)
  | yTick (x y size value : α)
  | frame (x y width height : α)
  | curve (index : Nat) (points : List (α × α))
  | xLabel (x y size : α)
  | yLabel (x y size : α)
  | legendBox (x y width height : α)
  | legendLine (index : Nat) (x1 y x2 : α)
  | legendText (x y size : α) (label : String)

structure Chart (α : Type) where
  width : α
  height : α
  shapes : List (Shape α)

namespace Chart

open Scalar

variable {α : Type} [Scalar α]

/-- The least of 1, 2, 5 and 10 times the decade of `raw` that is not below `raw`. -/
def niceStep (raw : α) : α :=
  if le raw (ofNat 0) then ofNat 1
  else
    let magnitude := decade raw
    let fraction := raw / magnitude
    let nice : Nat :=
      if le fraction (ofNat 1) then 1
      else if le fraction (ofNat 2) then 2
      else if le fraction (ofNat 5) then 5
      else 10
    ofNat nice * magnitude

/-- The distance of the ticks for a greatest clock cycle: five steps or fewer reach it. -/
def xStep (maxCycle : α) : α := Scalar.max (niceStep (maxCycle / ofNat 5)) (ofNat 1)

def xEnd (maxCycle step : α) : α := Scalar.max (ceil (maxCycle / step) * step) step

/-- The ticks from `tick` on that are at most half a step beyond the end. -/
def ticksFrom (last step : α) : Nat → α → List α
  | 0, _ => []
  | fuel + 1, tick =>
    if le tick (last + step / ofNat 2) then tick :: ticksFrom last step fuel (tick + step) else []

structure Frame (α : Type) where
  left : α
  right : α
  top : α
  bottom : α
  xMax : α

namespace Frame

def x (f : Frame α) (cycle : α) : α := f.left + cycle / f.xMax * (f.right - f.left)

def y (f : Frame α) (probability : α) : α := f.bottom - clampUnit probability * (f.bottom - f.top)

end Frame

def tenths (n : Nat) : α := ofRatio n 10

def pointsPerInch : α := ofNat 72

def frameOf (size : ChartSize α) (width height xMax : α) : Frame α where
  left := size.tickSize * tenths 22 + size.labelSize * tenths 16
  right := width - ofNat 8
  top := ofNat 6
  bottom := height - size.tickSize * tenths 16 - size.labelSize * tenths 16
  xMax := xMax

def maxCycle (series : List Series) : Nat :=
  ((series.flatMap fun s => s.timeline.map Sample.clockCycle).max?).getD 0

def xTicks (f : Frame α) (size : ChartSize α) (ticks : List α) : List (Shape α) :=
  ticks.flatMap fun tick =>
    let x := f.x tick
    [.gridLine x f.top x f.bottom,
      .xTick x (f.bottom + size.tickSize * tenths 12) size.tickSize tick]

def yTicks (f : Frame α) (size : ChartSize α) : List (Shape α) :=
  (List.range 6).flatMap fun i =>
    let p : α := ofNat i / ofNat 5
    let y := f.y p
    [.gridLine f.left y f.right y,
      .yTick (f.left - ofNat 3) (y + size.tickSize * ofRatio 35 100) size.tickSize p]

def curves (f : Frame α) (series : List Series) : List (Shape α) :=
  series.mapIdx fun index s =>
    .curve index (s.timeline.map fun p =>
      (f.x (ofNat p.clockCycle), f.y (ofProbability p.probability)))

def axisLabels (f : Frame α) (size : ChartSize α) (height : α) : List (Shape α) := [
  .xLabel ((f.left + f.right) / ofNat 2) (height - size.labelSize * tenths 4) size.labelSize,
  .yLabel size.labelSize ((f.top + f.bottom) / ofNat 2) size.labelSize]

def legend (f : Frame α) (size : ChartSize α) (series : List Series) : List (Shape α) :=
  let row := size.tickSize * tenths 13
  let sampleLength := size.tickSize * tenths 18
  let widest : α := ofNat (((series.map fun s => s.label.length).max?).getD 0)
  let boxWidth := sampleLength + widest * size.tickSize * tenths 6 + ofNat 12
  let boxHeight := row * ofNat series.length + ofNat 6
  let boxLeft := f.right - boxWidth - ofNat 4
  let boxTop := f.bottom - boxHeight - ofNat 4
  let rows := series.mapIdx fun index s =>
    let y := boxTop + ofNat 3 + row * (ofNat index + tenths 5)
    let left := boxLeft + ofNat 4
    [Shape.legendLine index left y (left + sampleLength),
      .legendText (boxLeft + ofNat 8 + sampleLength) (y + size.tickSize * ofRatio 35 100)
        size.tickSize s.label]
  .legendBox boxLeft boxTop boxWidth boxHeight :: rows.flatten

/-- Enough for every axis, which has six ticks at most. -/
def tickFuel : Nat := 64

def ofSeries (size : ChartSize α) (series : List Series) : Chart α :=
  let width := size.width * pointsPerInch
  let height := size.height * pointsPerInch
  let greatest : α := ofNat (maxCycle series)
  let step := xStep greatest
  let xMax := xEnd greatest step
  let f := frameOf size width height xMax
  ⟨width, height,
    .background width height ::
      (xTicks f size (ticksFrom xMax step tickFuel (ofNat 0)) ++
        yTicks f size ++
        [.frame f.left f.top (f.right - f.left) (f.bottom - f.top)] ++
        curves f series ++
        axisLabels f size height ++
        (if series.isEmpty then [] else legend f size series))⟩

end Chart

namespace ChartSize

open Scalar

variable {α : Type} [Scalar α]

def full : ChartSize α := ⟨ofRatio 33 10, ofRatio 27 10, ofNat 10, ofNat 10⟩

def small : ChartSize α :=
  let scale : α := ofNat 30 / ofNat 44
  let base : ChartSize α := full
  ⟨base.width * scale, base.height * scale, ofNat 8, base.tickSize⟩

end ChartSize

end NoiseTimeline
