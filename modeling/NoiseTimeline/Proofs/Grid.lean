import Mathlib.Order.Bounds.Defs
import NoiseTimeline.Proofs.Saturation
import NoiseTimeline.Window

/-! Samples on the multiples of a stride. Windows as wide as a whole number of strides
cut the grid into pieces that put together give it again, a clipped last one included. -/

namespace NoiseTimeline

/-- The probabilities at the multiples of the stride up to a bound. -/
def gridTimeline (p : Nat → Binary64) (stride bound : Nat) : Timeline :=
  (List.range (bound / stride + 1)).map fun i => ⟨i * stride, p (i * stride)⟩

/-- The probabilities from a window's lower bound on, a stride apart. -/
def Window.results (p : Nat → Binary64) (stride : Nat) (w : Window) : List Sample :=
  (List.range ((w.upper - w.lower) / stride + 1)).map fun i =>
    ⟨w.lower + i * stride, p (w.lower + i * stride)⟩

variable {p : Nat → Binary64} {stride : Nat}

theorem mem_gridTimeline (hs : 0 < stride) {bound : Nat} {x : Sample} :
    x ∈ gridTimeline p stride bound ↔
      stride ∣ x.clockCycle ∧ x.clockCycle ≤ bound ∧ x.probability = p x.clockCycle := by
  unfold gridTimeline
  rw [List.mem_map]
  constructor
  · rintro ⟨i, hi, rfl⟩
    have hle : i ≤ bound / stride := Nat.le_of_lt_succ (List.mem_range.mp hi)
    exact ⟨Nat.dvd_mul_left stride i, (Nat.le_div_iff_mul_le hs).mp hle, rfl⟩
  · rintro ⟨⟨i, hi⟩, hle, hp⟩
    rw [Nat.mul_comm] at hi
    rw [hi] at hle hp
    refine ⟨i, List.mem_range.mpr (Nat.lt_succ_of_le ((Nat.le_div_iff_mul_le hs).mpr hle)), ?_⟩
    rw [← hp, ← hi]

theorem gridTimeline_ascending (hs : 0 < stride) (bound : Nat) :
    (gridTimeline p stride bound).Pairwise fun x y => x.clockCycle < y.clockCycle := by
  unfold gridTimeline
  rw [List.pairwise_map]
  exact List.pairwise_lt_range.imp fun hlt => Nat.mul_lt_mul_of_pos_right hlt hs

theorem ofTimeline_gridTimeline (hs : 0 < stride) {bound : Nat} (hp : ∀ c, (p c).isNaN = false)
    (hreached : ∃ x ∈ gridTimeline p stride bound, saturation.le x.probability = true) :
    ∃ top,
      IsLeast {c | stride ∣ c ∧ c ≤ bound ∧
        ∀ d, stride ∣ d → d ≤ bound → (p d).le (p c) = true} top ∧
      Convergence.ofTimeline (gridTimeline p stride bound) = .saturated (p top) top := by
  have hnumbers : ∀ x ∈ gridTimeline p stride bound, x.probability.isNaN = false := by
    intro x hx
    rw [((mem_gridTimeline hs).mp hx).2.2]
    exact hp _
  obtain ⟨before, x, after, hsplit, hconverged, hmax, hbefore⟩ :=
    Convergence.ofTimeline_of_reached hnumbers hreached
  have hx : x ∈ gridTimeline p stride bound := by
    rw [hsplit]
    exact List.mem_append_right _ List.mem_cons_self
  obtain ⟨hdvd, hle, hprobability⟩ := (mem_gridTimeline hs).mp hx
  refine ⟨x.clockCycle, ⟨⟨hdvd, hle, ?_⟩, ?_⟩, hprobability ▸ hconverged⟩
  · intro d hd hdle
    rw [← hprobability]
    exact hmax ⟨d, p d⟩ ((mem_gridTimeline hs).mpr ⟨hd, hdle, rfl⟩)
  · rintro c ⟨hcd, hcle, hcmax⟩
    apply Nat.le_of_not_lt
    intro hlt
    have hmem : ⟨c, p c⟩ ∈ gridTimeline p stride bound := (mem_gridTimeline hs).mpr ⟨hcd, hcle, rfl⟩
    have hascending := gridTimeline_ascending (p := p) hs bound
    rw [hsplit] at hmem hascending
    rcases List.mem_append.mp hmem with hmem | hmem
    · have hless := Binary64.lt_iff.mp (hbefore _ hmem)
      have hmore := Binary64.le_iff.mp (hcmax x.clockCycle hdvd hle)
      rw [hprobability] at hless
      exact absurd hless.2.2 (Int.not_lt.mpr hmore.2.2)
    · rcases List.mem_cons.mp hmem with heq | hmem
      · exact absurd (congrArg Sample.clockCycle heq) (Nat.ne_of_lt hlt)
      · have hlater := (List.pairwise_cons.mp (List.pairwise_append.mp hascending).2.1).1 _ hmem
        exact absurd hlater (Nat.lt_asymm hlt)

theorem Window.results_ne_nil (w : Window) : w.results p stride ≠ [] := by
  simp [Window.results]

theorem Window.mem_results {w : Window} {x : Sample} (hs : 0 < stride) (hw : w.lower ≤ w.upper)
    (hx : x ∈ w.results p stride) : x.clockCycle ≤ w.upper ∧ x.probability = p x.clockCycle := by
  unfold Window.results at hx
  obtain ⟨i, hi, rfl⟩ := List.mem_map.mp hx
  have hle : i * stride ≤ w.upper - w.lower :=
    (Nat.le_div_iff_mul_le hs).mp (Nat.le_of_lt_succ (List.mem_range.mp hi))
  refine ⟨?_, rfl⟩
  dsimp only
  omega

theorem Window.results_ascending (w : Window) :
    (w.results p stride).Pairwise fun x y => x.clockCycle ≤ y.clockCycle := by
  unfold Window.results
  rw [List.pairwise_map]
  exact List.pairwise_lt_range.imp fun hlt =>
    Nat.add_le_add_left (Nat.mul_le_mul_right stride (Nat.le_of_lt hlt)) w.lower

theorem min_div (a b s : Nat) : min a b / s = min (a / s) (b / s) := by
  rcases Nat.le_total a b with h | h
  · rw [Nat.min_eq_left h, Nat.min_eq_left (Nat.div_le_div_right h)]
  · rw [Nat.min_eq_right h, Nat.min_eq_right (Nat.div_le_div_right h)]

theorem mul_pred_div {m s : Nat} (hm : 0 < m) (hs : 0 < s) : (m * s - 1) / s = m - 1 := by
  obtain ⟨m, rfl⟩ : ∃ k, m = k + 1 := ⟨m - 1, by omega⟩
  have hsplit : (m + 1) * s - 1 = (s - 1) + s * m := by
    rw [Nat.add_mul, Nat.mul_comm]
    omega
  rw [hsplit, Nat.add_mul_div_left _ _ hs, Nat.div_eq_of_lt (by omega)]
  omega

theorem grid_count_succ {b last n : Nat} (hs : 0 < stride) (hb : 0 < b)
    (hn : n * (b * stride) ≤ last) :
    min ((n + 1) * b) (last / stride + 1) =
      n * b +
        ((min (n * (b * stride) + (b * stride - 1)) last - n * (b * stride)) / stride + 1) := by
  have hdiff : min (n * (b * stride) + (b * stride - 1)) last - n * (b * stride) =
      min (b * stride - 1) (last - stride * (n * b)) := by
    rw [Nat.mul_comm stride, Nat.mul_assoc]
    omega
  have hle : n * b ≤ last / stride := by
    rw [Nat.le_div_iff_mul_le hs, Nat.mul_assoc]
    exact hn
  rw [hdiff, min_div, mul_pred_div hb hs, Nat.sub_mul_div, Nat.add_mul]
  omega

theorem flatMap_results {b last n : Nat} (hs : 0 < stride) (hb : 0 < b)
    (hn : n ≤ last / (b * stride) + 1) :
    ((List.range n).flatMap fun k =>
      Window.results p stride ⟨k * (b * stride), min (k * (b * stride) + (b * stride - 1)) last⟩) =
    (List.range (min (n * b) (last / stride + 1))).map fun i => ⟨i * stride, p (i * stride)⟩ := by
  induction n with
  | zero => simp
  | succ n ih =>
    have hle : n * (b * stride) ≤ last :=
      (Nat.le_div_iff_mul_le (Nat.mul_pos hb hs)).mp (Nat.le_of_succ_le_succ hn)
    have hcount : min (n * b) (last / stride + 1) = n * b := by
      have hdiv : n * b ≤ last / stride := by
        rw [Nat.le_div_iff_mul_le hs, Nat.mul_assoc]
        exact hle
      omega
    have hstart : ∀ i, n * (b * stride) + i * stride = (n * b + i) * stride := by
      intro i
      rw [Nat.add_mul, Nat.mul_assoc]
    rw [List.range_succ, List.flatMap_append, ih (by omega), hcount, List.flatMap_singleton,
      grid_count_succ hs hb hle, List.range_add, List.map_append, List.map_map, Window.results]
    simp only [hstart]
    rfl

theorem gridTimeline_min {b last k : Nat} (hs : 0 < stride) (hb : 0 < b) :
    gridTimeline p stride (min last ((k + 1) * (b * stride) - 1)) =
      (List.range (min ((k + 1) * b) (last / stride + 1))).map fun i =>
        ⟨i * stride, p (i * stride)⟩ := by
  have hpos : 0 < (k + 1) * b := Nat.mul_pos (Nat.succ_pos k) hb
  rw [gridTimeline, min_div, ← Nat.mul_assoc, mul_pred_div hpos hs]
  congr 2
  omega

end NoiseTimeline
