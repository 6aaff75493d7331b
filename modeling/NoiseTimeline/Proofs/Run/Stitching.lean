import NoiseTimeline.Proofs.Grid
import NoiseTimeline.Proofs.Run.Success
import NoiseTimeline.Proofs.Trace

/-! A run whose checker gives each window the values of one curve. The samples of its
windows, put together, are the curve on the grid, cut at the end of a window. -/

namespace NoiseTimeline.Run

variable {σ : Type} {r : Run σ} {p : Nat → Binary64} {elapsed : Elapsed} {s : σ}

/-- Each window's model renders, the checker answers it with the curve's values in the window, and
the parser is that for such answers. -/
structure Traces (r : Run σ) (p : Nat → Binary64) : Prop where
  answers : ∀ w ∈ r.planner.windows, ∀ s, ∃ text s',
    r.collaborators.render (.ofWindow r.config w) s = (.ok text, s') ∧
      (r.collaborators.call .simulate (.text (RenderRequest.ofWindow r.config w).label text) s').1 =
        .ok (Trace.resultsText (w.results p r.config.stride))
  parses : ∀ trace s, (r.collaborators.parse trace s).1 = Trace.parse trace

theorem lt_succ_div_mul {width : Nat} (hw : 0 < width) (c : Nat) : c < (c / width + 1) * width := by
  rw [Nat.succ_mul]
  exact Nat.lt_div_mul_add hw

def IsProbability (p : Nat → Binary64) : Prop :=
  ∀ c, Binary64.zero.le (p c) = true ∧ (p c).le .one = true

theorem parse_results (hc : r.config.IsValid) (hp : IsProbability p) {w : Window}
    (hw : w ∈ r.planner.windows) :
    Trace.parse (Trace.resultsText (w.results p r.config.stride)) =
      .ok (w.results p r.config.stride) := by
  obtain ⟨hle, hlast⟩ := mem_windows hc hw
  have hcovered := hc.lastCovered_le
  refine Trace.parse_resultsText w.results_ne_nil ?_ w.results_ascending
  intro x hx
  obtain ⟨hupper, hprobability⟩ := Window.mem_results hc.stride_pos hle hx
  have hlimit : lastCycle < wordLimit := by decide
  refine ⟨by omega, ?_⟩
  rw [hprobability]
  exact hp x.clockCycle

theorem answers_length_eq (hc : r.config.IsValid) (s : σ) :
    (r.answers s).length = r.config.lastCovered / r.config.width + 1 := by
  rw [answers_length, windows_eq hc, List.length_map, List.length_range]

section Curve

variable (hc : r.config.IsValid) (hp : IsProbability p) (hmode : r.mode = .simulate)
  (ht : r.Traces p)

include hc hp hmode ht

theorem visit_of_traces {w : Window} (hw : w ∈ r.planner.windows) (st : RunState) (s : σ) :
    (r.visit w st s).1 =
      .simulated (w.results p r.config.stride)
        (Trace.resultsText (w.results p r.config.stride)) := by
  obtain ⟨text, s₁, hrender, hcall⟩ := ht.answers w hw s
  rw [visit_fst_of_render_ok hrender, hmode]
  exact Attempt.ofModel_of_trace hcall fun s => (ht.parses _ s).trans (parse_results hc hp hw)

theorem answers_of_traces (s : σ) :
    r.answers s = r.planner.windows.map fun w =>
      .simulated (w.results p r.config.stride)
        (Trace.resultsText (w.results p r.config.stride)) := by
  have hcourse : ∀ ws, (∀ w ∈ ws, w ∈ r.planner.windows) →
      ∀ st s, (r.course ws st s).1 = ws.map fun w =>
      .simulated (w.results p r.config.stride)
        (Trace.resultsText (w.results p r.config.stride)) := by
    intro ws hws
    induction ws with
    | nil => exact fun _ _ => rfl
    | cons w ws ih =>
      intro st s
      rw [course, List.map_cons]
      dsimp only
      rw [visit_of_traces hc hp hmode ht (hws w List.mem_cons_self),
        ih (fun v hv => hws v (List.mem_cons_of_mem _ hv))]
  exact hcourse _ (fun _ hw => hw) _ _

theorem mem_answers {a : Attempt} (ha : a ∈ r.answers s) :
    ∃ w ∈ r.planner.windows, a.samples = w.results p r.config.stride ∧ a.isSkipped = false := by
  rw [answers_of_traces hc hp hmode ht] at ha
  obtain ⟨w, hw, rfl⟩ := List.mem_map.mp ha
  exact ⟨w, hw, rfl, rfl⟩

theorem answers_isNaN : ∀ a ∈ r.answers s, ∀ x ∈ a.samples, x.probability.isNaN = false := by
  intro a ha x hx
  obtain ⟨w, hw, hsamples, -⟩ := mem_answers hc hp hmode ht ha
  rw [hsamples] at hx
  rw [(Window.mem_results hc.stride_pos (mem_windows hc hw).1 hx).2]
  exact (Binary64.le_iff.mp (hp x.clockCycle).2).1

theorem answers_rendered : ∀ e, (r.answers s).head? ≠ some (.renderFailed e) := by
  intro e he
  obtain ⟨w, -, -, hskipped⟩ := mem_answers hc hp hmode ht (List.mem_of_head? he)
  cases hskipped

theorem not_givesUp (hlimit : r.failureLimit ≠ some 0) (n : Nat) :
    ¬ r.GivesUp ((r.answers s).take n) := by
  rintro ⟨-, limit, hmem, hle⟩
  have hnone : trailingSkips ((r.answers s).take n) = 0 := by
    rw [trailingSkips_eq, List.length_eq_zero_iff]
    cases hrev : ((r.answers s).take n).reverse with
    | nil => rfl
    | cons a as =>
      have ha : a ∈ r.answers s :=
        List.mem_of_mem_take (List.mem_reverse.mp (hrev ▸ List.mem_cons_self))
      obtain ⟨-, -, -, hskipped⟩ := mem_answers hc hp hmode ht ha
      exact List.takeWhile_cons_of_neg (by simp [hskipped])
  rw [hnone, Nat.le_zero] at hle
  exact hlimit (hle ▸ hmem)

theorem samples_take {n : Nat} (hn : n ≤ r.config.lastCovered / r.config.width + 1) :
    ((r.answers s).take n).flatMap Attempt.samples =
      (List.range (min (n * r.config.blockSize) (r.config.lastCovered / r.config.stride + 1))).map
        fun i =>
        ⟨i * r.config.stride, p (i * r.config.stride)⟩ := by
  rw [answers_of_traces hc hp hmode ht, windows_eq hc, List.map_map, ← List.map_take,
    List.take_range, Nat.min_eq_left hn, List.flatMap_map]
  exact flatMap_results hc.stride_pos hc.blockSize_pos hn

theorem samples_take_succ {k : Nat} (hk : k ≤ r.config.lastCovered / r.config.width) :
    ((r.answers s).take (k + 1)).flatMap Attempt.samples =
      gridTimeline p r.config.stride (min r.config.lastCovered ((k + 1) * r.config.width - 1)) := by
  rw [samples_take hc hp hmode ht (Nat.succ_le_succ hk)]
  exact (gridTimeline_min hc.stride_pos hc.blockSize_pos).symm

theorem hasSaturated_take {k : Nat} (hk : k ≤ r.config.lastCovered / r.config.width) :
    HasSaturated ((r.answers s).take (k + 1)) ↔
      ∃ c, r.config.stride ∣ c ∧ c ≤ r.config.lastCovered ∧ c < (k + 1) * r.config.width ∧
      saturation.le (p c) = true := by
  have hpos : 0 < (k + 1) * r.config.width := Nat.mul_pos (Nat.succ_pos k) hc.width_pos
  rw [hasSaturated_iff, samples_take_succ hc hp hmode ht hk]
  constructor
  · rintro ⟨x, hx, hsat⟩
    obtain ⟨hdvd, hle, hprobability⟩ := (mem_gridTimeline hc.stride_pos).mp hx
    exact ⟨x.clockCycle, hdvd, by omega, by omega, hprobability ▸ hsat⟩
  · rintro ⟨c, hdvd, hle, hlt, hsat⟩
    exact ⟨⟨c, p c⟩, (mem_gridTimeline hc.stride_pos).mpr ⟨hdvd, by dsimp only; omega, rfl⟩, hsat⟩

theorem stopsAt_iff (hlimit : r.failureLimit ≠ some 0) {k : Nat} : r.StopsAt (r.answers s) k ↔
    k ≤ r.config.lastCovered / r.config.width ∧ HasSaturated ((r.answers s).take (k + 1)) := by
  rw [StopsAt, answers_length_eq hc s, Nat.lt_succ_iff,
    or_iff_left (not_givesUp hc hp hmode ht hlimit (k + 1))]

theorem isLeast_stopsAt (hlimit : r.failureLimit ≠ some 0) {first : Nat}
    (h : IsLeast {c | r.config.stride ∣ c ∧ c ≤ r.config.lastCovered ∧ saturation.le (p c) = true}
      first) :
    IsLeast {k | r.StopsAt (r.answers s) k} (first / r.config.width) := by
  obtain ⟨⟨hdvd, hle, hsat⟩, hleast⟩ := h
  have hwindow : first / r.config.width ≤ r.config.lastCovered / r.config.width :=
    Nat.div_le_div_right hle
  constructor
  · exact (stopsAt_iff hc hp hmode ht hlimit).mpr
      ⟨hwindow, (hasSaturated_take hc hp hmode ht hwindow).mpr
        ⟨first, hdvd, hle, lt_succ_div_mul hc.width_pos first, hsat⟩⟩
  · intro k hk
    obtain ⟨hk, hsatk⟩ := (stopsAt_iff hc hp hmode ht hlimit).mp hk
    obtain ⟨c, hcd, hcle, hclt, hcsat⟩ := (hasSaturated_take hc hp hmode ht hk).mp hsatk
    have hfirst : first ≤ c := hleast ⟨hcd, hcle, hcsat⟩
    exact Nat.le_of_lt_succ
      ((Nat.div_lt_iff_lt_mul hc.width_pos).mpr (Nat.lt_of_le_of_lt hfirst hclt))

end Curve

/-- A run over one curve gives the curve on the grid: up to its last cycle if the curve never
saturates there, and otherwise up to the end of the window in which it first does. -/
theorem windows_stitch_to_grid (hc : r.config.IsValid) (hp : IsProbability p)
    (hmode : r.mode = .simulate) (ht : r.Traces p) (hlimit : r.failureLimit ≠ some 0)
    (havailable : (r.collaborators.ensureAvailable s).1 = .ok ())
    (hstored : ∀ e, (r.execute elapsed s).1 ≠ .error (.store e)) :
    ((∀ c, r.config.stride ∣ c → c ≤ r.config.lastCovered → saturation.le (p c) = false) →
      ∃ o s', r.execute elapsed s = (.ok o, s') ∧ o.stopReason = .horizonExhausted ∧
        o.timeline = gridTimeline p r.config.stride r.config.lastCovered) ∧
    (∀ first, IsLeast {c | r.config.stride ∣ c ∧ c ≤ r.config.lastCovered ∧
        saturation.le (p c) = true} first →
      ∀ bound,
        bound = min r.config.lastCovered ((first / r.config.width + 1) * r.config.width - 1) →
        ∃ o s' top, r.execute elapsed s = (.ok o, s') ∧ o.stopReason = .saturated top (p top) ∧
          o.timeline = gridTimeline p r.config.stride bound ∧
          IsLeast {c | r.config.stride ∣ c ∧ c ≤ bound ∧
            ∀ d, r.config.stride ∣ d → d ≤ bound → (p d).le (p c) = true} top) := by
  have hnumbers := answers_isNaN (s := s) hc hp hmode ht
  have hrenders := answers_rendered (s := s) hc hp hmode ht
  constructor
  · intro hbelow
    have hnever : ∀ k, ¬ r.StopsAt (r.answers s) k := by
      intro k hk
      obtain ⟨hk, hsat⟩ := (stopsAt_iff hc hp hmode ht hlimit).mp hk
      obtain ⟨c, hdvd, hle, -, hsat⟩ := (hasSaturated_take hc hp hmode ht hk).mp hsat
      rw [hbelow c hdvd hle] at hsat
      cases hsat
    obtain ⟨o, s', hexecute, -, hreason, -, -, htimeline⟩ :=
      endsAfter_last hmode havailable hrenders hnumbers hstored hnever
    refine ⟨o, s', hexecute, hreason, ?_⟩
    rw [htimeline, answers_length_eq hc s, samples_take_succ hc hp hmode ht (Nat.le_refl _),
      Nat.min_eq_left (Nat.le_sub_one_of_lt (lt_succ_div_mul hc.width_pos _))]
  · rintro first hfirst bound rfl
    -- The run stops with the window of the first saturated cycle, so its samples end where
    -- that window does.
    have hk := isLeast_stopsAt (s := s) hc hp hmode ht hlimit hfirst
    obtain ⟨hwindow, hreached⟩ := (stopsAt_iff hc hp hmode ht hlimit).mp hk.1
    obtain ⟨clockCycle, pMax, ⟨o, s', hexecute, -, hreason, -, -, htimeline⟩, hconverged⟩ :=
      endsAfter_saturated hmode havailable hrenders hnumbers hstored hk hreached
    have hsamples := samples_take_succ (s := s) hc hp hmode ht hwindow
    rw [hsamples] at hconverged htimeline
    rw [hasSaturated_iff, hsamples] at hreached
    obtain ⟨top, htop, hgrid⟩ := ofTimeline_gridTimeline hc.stride_pos
      (fun c => (Binary64.le_iff.mp (hp c).2).1) hreached
    rw [hgrid] at hconverged
    obtain ⟨rfl, rfl⟩ := Convergence.saturated.inj hconverged
    exact ⟨o, s', top, hexecute, hreason, htimeline, htop⟩

/-- A curve that jumps to one in the middle of the second of three windows. -/
def jump (c : Nat) : Binary64 := if c < 8 then .zero else .one

theorem isProbability_jump : IsProbability jump := by
  intro c
  unfold jump
  split <;> decide

def readJump (trace : String) : Except TraceError (List Sample) :=
  match [Window.mk 0 5, Window.mk 6 11, Window.mk 12 15].find? fun w =>
    Trace.resultsText (w.results jump 2) = trace with
  | some w => .ok (w.results jump 2)
  | none => Trace.parse trace

theorem readJump_eq (trace : String) : readJump trace = Trace.parse trace := by
  have hknown : ∀ w ∈ [Window.mk 0 5, Window.mk 6 11, Window.mk 12 15], w.results jump 2 ≠ [] ∧
      (∀ x ∈ w.results jump 2, Trace.IsResult x) ∧
      (w.results jump 2).Pairwise fun x y => x.clockCycle ≤ y.clockCycle := by
    decide
  unfold readJump
  split
  · rename_i w hw
    exact (Trace.parse_of_find? hknown hw).symm
  · rfl

def jumpRun : Run Machine where
  config := { size := 2, property := .diDt, horizon := some 15, stride := 2, blockSize := 3 }
  mode := .simulate
  resultDir := "r"
  collaborators :=
    { toolName := "modest"
      ensureAvailable s := (.ok (), s)
      render request s := (.ok (Trace.resultsText (request.window.results jump request.stride)), s)
      call _ model s := (.ok (model.content?.getD ""), s)
      keptModel _ _ := none
      parse trace s := (readJump trace, s) }
  host := Machine.host

theorem traces_jumpRun : jumpRun.Traces jump where
  answers _ _ s := ⟨_, s, rfl, rfl⟩
  parses trace _ := readJump_eq trace

def jumpOutcome : RunOutcome :=
  ⟨.simulate, .saturated 8 .one, 2, 0, gridTimeline jump 2 11, ⟨0, 0⟩, .within "r" jumpRun.config⟩

theorem jumpRun_execute : (jumpRun.execute ⟨0, 0⟩ {}).1 = .ok jumpOutcome := by
  have hvalid : jumpRun.config.IsValid := ⟨rfl, by decide, by decide, by decide⟩
  have hstarts : jumpRun.Starts {} := ⟨not_isUnboundedCheck rfl, rfl, _, rfl⟩
  exact hstarts.outcome_of_room hvalid rfl ⟨id, fun _ => id, fun _ _ => id, fun _ => id⟩
    (Machine.hasRoom_empty _) (by decide +kernel)

theorem jumpRun_stitches :
    ∃ o s' top, jumpRun.execute ⟨0, 0⟩ {} = (.ok o, s') ∧ o.stopReason = .saturated top (jump top) ∧
      o.timeline = gridTimeline jump 2 11 := by
  have hvalid : jumpRun.config.IsValid := ⟨rfl, by decide, by decide, by decide⟩
  have hleast : IsLeast {c | jumpRun.config.stride ∣ c ∧ c ≤ jumpRun.config.lastCovered ∧
      saturation.le (jump c) = true} 8 := by
    refine ⟨by decide, ?_⟩
    rintro c ⟨-, -, hsat⟩
    apply Nat.le_of_not_lt
    intro hlt
    rw [jump, if_pos hlt] at hsat
    exact absurd hsat (by decide)
  have hstored : ∀ e, (jumpRun.execute ⟨0, 0⟩ {}).1 ≠ .error (.store e) := by
    simp [jumpRun_execute]
  obtain ⟨o, s', top, hexecute, hreason, htimeline, -⟩ :=
    (windows_stitch_to_grid hvalid isProbability_jump rfl traces_jumpRun (by decide) rfl hstored).2
      8 hleast 11 rfl
  exact ⟨o, s', top, hexecute, hreason, htimeline⟩

end NoiseTimeline.Run
