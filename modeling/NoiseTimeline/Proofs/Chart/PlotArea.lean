import NoiseTimeline.Proofs.Chart.Axis

/-! The plot area of a chart in exact arithmetic: the axis below it covers the data, so the points
of the curves lie inside its frame. -/

namespace NoiseTimeline

/-- A box with an upper left corner. -/
structure Box (α : Type) where
  left : α
  top : α
  width : α
  height : α
  deriving DecidableEq

/-- The edges belong to the box. -/
def Box.Contains (b : Box ℚ) (q : ℚ × ℚ) : Prop :=
  q.1 ∈ Set.Icc b.left (b.left + b.width) ∧ q.2 ∈ Set.Icc b.top (b.top + b.height)

def Box.frame {α : Type} (b : Box α) : Shape α := .frame b.left b.top b.width b.height

namespace Shape

variable {α : Type}

def tick? : Shape α → Option α
  | .xTick _ _ _ value => some value
  | _ => none

def frame? : Shape α → Option (Box α)
  | .frame x y width height => some ⟨x, y, width, height⟩
  | _ => none

def points? : Shape α → Option (List (α × α))
  | .curve _ points => some points
  | _ => none

/-- Whether a shape is more than decoration. -/
def isEssential (s : Shape α) : Bool := s.tick?.isSome || s.frame?.isSome || s.points?.isSome

theorem isEssential_eq_false_iff {s : Shape α} :
    s.isEssential = false ↔ (s.tick? = none ∧ s.frame? = none) ∧ s.points? = none := by
  simp only [isEssential, Bool.or_eq_false_iff, Option.isSome_eq_false_iff,
    Option.isNone_iff_eq_none]

end Shape

namespace Chart

open Scalar

section Drawn

variable {α : Type} [Scalar α]

/-- The numbers below the grid. -/
def ticks (c : Chart α) : List α := c.shapes.filterMap Shape.tick?

def frames (c : Chart α) : List (Box α) := c.shapes.filterMap Shape.frame?

/-- The points of each curve. -/
def polylines (c : Chart α) : List (List (α × α)) := c.shapes.filterMap Shape.points?

/-- The plot area of the chart of some curves. -/
def plotArea (size : ChartSize α) (series : List Series) : Frame α :=
  frameOf size (size.width * pointsPerInch) (size.height * pointsPerInch)
    (xEnd (ofNat (maxCycle series)) (xStep (ofNat (maxCycle series))))

def Frame.box (f : Frame α) : Box α := ⟨f.left, f.top, f.right - f.left, f.bottom - f.top⟩

def Frame.point (f : Frame α) (p : Sample) : α × α :=
  (f.x (ofNat p.clockCycle), f.y (ofProbability p.probability))

variable {f : Frame α} {size : ChartSize α} {series : List Series}

theorem filter_xTicks (ticks : List α) :
    (xTicks f size ticks).filter Shape.isEssential =
      ticks.map fun tick => .xTick (f.x tick)
        (f.bottom + size.tickSize * tenths 12) size.tickSize tick := by
  induction ticks with
  | nil => rfl
  | cons tick ticks ih => exact congrArg (_ :: ·) ih

theorem filter_yTicks : (yTicks f size).filter Shape.isEssential = [] := by
  rw [List.filter_eq_nil_iff]
  intro shape hshape
  obtain ⟨i, -, hi⟩ := List.mem_flatMap.mp hshape
  simp only [List.mem_cons, List.not_mem_nil, or_false] at hi
  rcases hi with rfl | rfl <;> exact Bool.false_ne_true

theorem filter_curves : (curves f series).filter Shape.isEssential = curves f series := by
  rw [List.filter_eq_self]
  intro shape hshape
  obtain ⟨i, hi, rfl⟩ := List.mem_mapIdx.mp hshape
  rfl

theorem filter_legend : (legend f size series).filter Shape.isEssential = [] := by
  rw [List.filter_eq_nil_iff]
  intro shape hshape
  rcases List.mem_cons.mp hshape with rfl | hshape
  · exact Bool.false_ne_true
  · obtain ⟨row, hrow, hshape⟩ := List.mem_flatten.mp hshape
    obtain ⟨i, hi, rfl⟩ := List.mem_mapIdx.mp hrow
    simp only [List.mem_cons, List.not_mem_nil, or_false] at hshape
    rcases hshape with rfl | rfl <;> exact Bool.false_ne_true

theorem shapes_ofSeries :
    (ofSeries size series).shapes =
      .background (size.width * pointsPerInch) (size.height * pointsPerInch) ::
        (xTicks (plotArea size series) size
            (ticksFrom (plotArea size series).xMax (xStep (ofNat (maxCycle series))) tickFuel
              (ofNat 0)) ++
          yTicks (plotArea size series) size ++ [(plotArea size series).box.frame] ++
          curves (plotArea size series) series ++
          axisLabels (plotArea size series) size (size.height * pointsPerInch) ++
          if series.isEmpty then [] else legend (plotArea size series) size series) :=
  rfl

theorem filter_shapes :
    (ofSeries size series).shapes.filter Shape.isEssential =
      ((ticksFrom (plotArea size series).xMax (xStep (ofNat (maxCycle series))) tickFuel
        (ofNat 0)).map fun tick =>
          .xTick ((plotArea size series).x tick)
            ((plotArea size series).bottom + size.tickSize * tenths 12)
            size.tickSize tick) ++
      (plotArea size series).box.frame :: curves (plotArea size series) series := by
  generalize hf : plotArea size series = f
  have hlabels : (axisLabels f size (size.height * pointsPerInch)).filter Shape.isEssential = [] :=
    rfl
  have hlegend : (if series.isEmpty then [] else legend f size series).filter Shape.isEssential =
      [] := by
    split
    · rfl
    · exact filter_legend
  rw [shapes_ofSeries, hf, List.filter_cons_of_neg Bool.false_ne_true]
  simp only [List.filter_append, filter_xTicks, filter_yTicks, filter_curves, hlabels, hlegend,
    List.append_nil, List.append_assoc]
  rfl

theorem filterMap_shapes {β : Type} {view : Shape α → Option β}
    (hview : ∀ shape, shape.isEssential = false → view shape = none) :
    (ofSeries size series).shapes.filterMap view =
      ((ticksFrom (plotArea size series).xMax (xStep (ofNat (maxCycle series))) tickFuel
        (ofNat 0)).filterMap
        fun tick => view (.xTick ((plotArea size series).x tick)
          ((plotArea size series).bottom + size.tickSize * tenths 12) size.tickSize tick)) ++
      ((view (plotArea size series).box.frame).toList ++
        series.zipIdx.filterMap fun x =>
          view (.curve x.2 (x.1.timeline.map (plotArea size series).point))) := by
  have hessential : (ofSeries size series).shapes.filterMap view =
      ((ofSeries size series).shapes.filter Shape.isEssential).filterMap view := by
    rw [List.filterMap_filter]
    apply List.filterMap_congr
    intro shape _
    split
    · rfl
    · exact hview shape (Bool.not_eq_true _ ▸ ‹_›)
  have hframe : [(plotArea size series).box.frame].filterMap view =
      (view (plotArea size series).box.frame).toList := by
    rw [List.filterMap_cons, List.filterMap_nil]
    cases view (plotArea size series).box.frame <;> rfl
  rw [hessential, filter_shapes, List.filterMap_append, List.filterMap_map, ← List.singleton_append,
    List.filterMap_append, hframe, curves, List.mapIdx_eq_zipIdx_map, List.filterMap_map]
  rfl

theorem ticks_ofSeries :
    (ofSeries size series).ticks =
      ticksFrom (plotArea size series).xMax (xStep (ofNat (maxCycle series))) tickFuel
        (ofNat 0) := by
  rw [ticks, filterMap_shapes fun _ h => (Shape.isEssential_eq_false_iff.mp h).1.1]
  change List.filterMap some _ ++ ([] ++ List.filterMap (fun _ => none) _) = _
  rw [List.filterMap_some, List.filterMap_none, List.append_nil, List.append_nil]

theorem frames_ofSeries : (ofSeries size series).frames = [(plotArea size series).box] := by
  rw [frames, filterMap_shapes fun _ h => (Shape.isEssential_eq_false_iff.mp h).1.2]
  change List.filterMap (fun _ => none) _ ++ ([_] ++ List.filterMap (fun _ => none) _) = _
  rw [List.filterMap_none, List.filterMap_none, List.append_nil, List.nil_append]

theorem polylines_ofSeries :
    (ofSeries size series).polylines = series.map fun s =>
      s.timeline.map (plotArea size series).point := by
  rw [polylines, filterMap_shapes fun _ h => (Shape.isEssential_eq_false_iff.mp h).2]
  change List.filterMap (fun _ => none) _ ++ ([] ++ series.zipIdx.filterMap
    (some ∘ (fun s => s.timeline.map (plotArea size series).point) ∘ Prod.fst)) = _
  rw [List.filterMap_none, List.filterMap_eq_map, ← List.map_map, List.zipIdx_map_fst,
    List.nil_append, List.nil_append]

end Drawn

section Exact

variable {f : Frame ℚ} {p : Sample}

theorem Frame.contains_point (hwidth : 0 ≤ f.box.width) (hheight : 0 ≤ f.box.height)
    (hmax : 0 < f.xMax) (hcycle : (p.clockCycle : ℚ) ≤ f.xMax) : f.box.Contains (f.point p) := by
  have hx : (f.point p).1 = f.box.left + p.clockCycle / f.xMax * f.box.width := by
    rw [← ofNat_eq]
    rfl
  have hy : (f.point p).2 = f.bottom - clampUnit (ofProbability p.probability) * f.box.height := rfl
  have hbottom : f.box.top + f.box.height = f.bottom := add_sub_cancel f.top f.bottom
  have hshare : 0 ≤ p.clockCycle / f.xMax := by positivity
  have hacross : p.clockCycle / f.xMax * f.box.width ≤ f.box.width :=
    mul_le_of_le_one_left hwidth ((div_le_one hmax).mpr hcycle)
  obtain ⟨hlow, hhigh⟩ := clampUnit_mem (ofProbability p.probability)
  have hup : clampUnit (ofProbability p.probability) * f.box.height ≤ f.box.height :=
    mul_le_of_le_one_left hheight hhigh
  rw [Box.Contains, hx, hy, hbottom]
  refine ⟨⟨?_, ?_⟩, ?_, ?_⟩
  · exact le_add_of_nonneg_right (mul_nonneg hshare hwidth)
  · exact add_le_add_right hacross _
  · linarith
  · exact sub_le_self _ (mul_nonneg hlow hheight)

theorem maxCycle_isLUB (series : List Series) :
    IsLUB {c | ∃ s ∈ series, ∃ p ∈ s.timeline, p.clockCycle = c} (maxCycle series) := by
  have hmem : ∀ c, (∃ s ∈ series, ∃ p ∈ s.timeline, p.clockCycle = c) ↔
      c ∈ series.flatMap fun s => s.timeline.map Sample.clockCycle := by
    intro c
    simp only [List.mem_flatMap, List.mem_map]
  simp only [hmem]
  rw [maxCycle]
  cases h : (series.flatMap fun s => s.timeline.map Sample.clockCycle).max? with
  | none =>
    rw [List.max?_eq_none_iff.mp h]
    simp
  | some c =>
    obtain ⟨hc, hle⟩ := List.max?_eq_some_iff.mp h
    exact IsGreatest.isLUB ⟨hc, hle⟩

theorem plotArea_xMax (size : ChartSize ℚ) (series : List Series) :
    (plotArea size series).xMax = xEnd (maxCycle series : ℚ) (xStep (maxCycle series : ℚ)) := by
  rw [← ofNat_eq]
  rfl

theorem ticks_eq_multiples (size : ChartSize ℚ) (series : List Series) :
    (ofSeries size series).ticks =
      multiples (stepCount (maxCycle series) (xStep (maxCycle series : ℚ)))
        (xStep (maxCycle series : ℚ)) := by
  have hfuel : (multiples (stepCount (maxCycle series) (xStep (maxCycle series : ℚ)))
      (xStep (maxCycle series : ℚ))).length ≤ tickFuel := by
    rw [length_multiples]
    exact Nat.succ_le_of_lt ((stepCount_le_five _).trans_lt (by decide))
  rw [ticks_ofSeries, plotArea_xMax, ofNat_eq, ofNat_eq, Nat.cast_zero]
  exact (tickLoop_axis (maxCycle series)).ticksFrom_eq hfuel

theorem contains_point {size : ChartSize ℚ} {series : List Series} {s : Series}
    (hwidth : 0 ≤ (plotArea size series).box.width)
    (hheight : 0 ≤ (plotArea size series).box.height) (hs : s ∈ series) (hp : p ∈ s.timeline) :
    (plotArea size series).box.Contains ((plotArea size series).point p) := by
  have hcycle : p.clockCycle ≤ maxCycle series := (maxCycle_isLUB series).1 ⟨s, hs, p, hp, rfl⟩
  obtain ⟨⟨⟨n, hn, hend⟩, hcovers⟩, -⟩ := xEnd_isLeast (xStep_pos (maxCycle series))
  apply Frame.contains_point hwidth hheight
  · have hn' : (0 : ℚ) < n := by exact_mod_cast hn
    rw [plotArea_xMax, hend]
    exact mul_pos hn' (xStep_pos _)
  · rw [plotArea_xMax]
    exact (Nat.cast_le.mpr hcycle).trans hcovers

/-- In exact arithmetic the axis of clock cycles covers the data. Its step is the least round number
that is at least one and a fifth of the greatest cycle, its end the least multiple of the step, zero
left out, that is not below that cycle. The loop over the ticks ends after two to six passes, the
last of them at the end of the axis. The curves have a point for each sample, and all points lie
inside the frame unless the size leaves no room for it. -/
theorem axis_covers_curves (size : ChartSize ℚ) (series : List Series) :
    let most : ℚ := maxCycle series
    let step : ℚ := xStep most
    let last : ℚ := xEnd most step
    let chart : Chart ℚ := ofSeries size series
    IsLUB {c | ∃ s ∈ series, ∃ p ∈ s.timeline, p.clockCycle = c} (maxCycle series) ∧
    IsLeast {x | IsRound x ∧ Max.max 1 (most / 5) ≤ x} step ∧
    IsLeast {x | (∃ n : ℕ, 0 < n ∧ x = n * step) ∧ most ≤ x} last ∧
    TickLoop last step 0 chart.ticks ∧
    (chart.ticks.length : ℚ) = last / step + 1 ∧ chart.ticks.length ∈ Set.Icc 2 6 ∧
    chart.ticks.getLast? = some last ∧
    chart.polylines.map List.length = series.map (fun s => s.timeline.length) ∧
    ∃ b, chart.frames = [b] ∧
      (0 ≤ b.width → 0 ≤ b.height → ∀ points ∈ chart.polylines, ∀ q ∈ points, b.Contains q) := by
  intro most step last chart
  have hpos : 0 < step := xStep_pos (maxCycle series)
  have hticks : chart.ticks = multiples (stepCount (maxCycle series) step) step :=
    ticks_eq_multiples size series
  have hend : last = stepCount (maxCycle series) step * step := xEnd_eq hpos
  have hlength : chart.ticks.length = stepCount (maxCycle series) step + 1 :=
    hticks ▸ length_multiples _ _
  refine ⟨maxCycle_isLUB series, xStep_isLeast _, xEnd_isLeast hpos, hticks ▸ tickLoop_axis _, ?_,
    ?_, ?_, ?_, _, frames_ofSeries, ?_⟩
  · rw [hlength, hend, mul_div_cancel_right₀ _ hpos.ne', Nat.cast_succ]
  · rw [hlength]
    exact ⟨Nat.succ_le_succ stepCount_pos, Nat.succ_le_succ (stepCount_le_five _)⟩
  · rw [hticks, hend, getLast?_multiples]
  · rw [polylines_ofSeries, List.map_map]
    simp only [Function.comp_def, List.length_map]
  · intro hwidth hheight points hpoints q hq
    rw [polylines_ofSeries] at hpoints
    obtain ⟨s, hs, rfl⟩ := List.mem_map.mp hpoints
    obtain ⟨p, hp, rfl⟩ := List.mem_map.mp hq
    exact contains_point hwidth hheight hs hp

/-- Two curves of which one goes above the unit interval and the other ends below it, after all
cycles of the first. -/
def unevenCurves : List Series := [
  ⟨1, "a.csv", [⟨0, .zero⟩, ⟨100, ⟨0x3ff8000000000000⟩⟩]⟩,
  ⟨5, "b.csv", [⟨3, .one⟩, ⟨237, .infinity true⟩]⟩]

theorem unevenCurves_inside :
    (ofSeries .full unevenCurves : Chart ℚ).ticks = [0, 50, 100, 150, 200, 250] ∧
    (ofSeries .full unevenCurves : Chart ℚ).frames = [⟨38, 6, 958 / 5, 782 / 5⟩] ∧
    (0 : ℚ) ≤ 958 / 5 ∧ (0 : ℚ) ≤ 782 / 5 ∧
    ∀ points ∈ (ofSeries .full unevenCurves).polylines, ∀ q ∈ points,
      Box.Contains ⟨38, 6, 958 / 5, 782 / 5⟩ q := by
  have hframes : (ofSeries .full unevenCurves : Chart ℚ).frames = [⟨38, 6, 958 / 5, 782 / 5⟩] := by
    decide +kernel
  obtain ⟨-, -, -, -, -, -, -, -, b, hb, hpoints⟩ := axis_covers_curves .full unevenCurves
  obtain rfl : b = ⟨38, 6, 958 / 5, 782 / 5⟩ := List.singleton_inj.mp (hb.symm.trans hframes)
  have hwidth : (0 : ℚ) ≤ 958 / 5 := by norm_num
  have hheight : (0 : ℚ) ≤ 782 / 5 := by norm_num
  exact ⟨by decide +kernel, hframes, hwidth, hheight, hpoints hwidth hheight⟩

end Exact

end Chart

end NoiseTimeline
