import Mathlib.Order.Bounds.Defs
import NoiseTimeline.Proofs.Run.Course
import NoiseTimeline.Proofs.Saturation
import NoiseTimeline.Shell.Host

/-! When a simulation stops. The first window after which a sample has saturated, or
after which an unbounded run has skipped too many in a row, is the last to be visited. -/

namespace NoiseTimeline

def HasSaturated (as : List Attempt) : Prop :=
  ∃ a ∈ as, ∃ x ∈ a.samples, saturation.le x.probability = true

theorem hasSaturated_iff {as : List Attempt} :
    HasSaturated as ↔ ∃ x ∈ as.flatMap Attempt.samples, saturation.le x.probability = true := by
  constructor
  · rintro ⟨a, ha, x, hx, hsat⟩
    exact ⟨x, List.mem_flatMap.mpr ⟨a, ha, hx⟩, hsat⟩
  · rintro ⟨x, hx, hsat⟩
    obtain ⟨a, ha, hxa⟩ := List.mem_flatMap.mp hx
    exact ⟨a, ha, x, hxa, hsat⟩

namespace Run

variable {σ : Type} {r : Run σ} {elapsed : Elapsed} {s : σ} {st : RunState} {as : List Attempt}

/-- The run has no horizon and has skipped as many windows in a row as its limit allows. -/
def GivesUp (r : Run σ) (as : List Attempt) : Prop :=
  r.config.horizon = none ∧ ∃ limit ∈ r.failureLimit, limit ≤ trailingSkips as

/-- The host when the first window is due. -/
def opened (r : Run σ) (s : σ) : σ :=
  r.present r.openingEntries (r.collaborators.ensureAvailable s).2

def opening (r : Run σ) : RunState := RunState.note {} r.openingEntries

/-- What becomes of the planner's windows if all of them are visited. -/
def answers (r : Run σ) (s : σ) : List Attempt :=
  (r.course r.planner.windows r.opening (r.opened s)).1

def after (r : Run σ) (n : Nat) (s : σ) : RunState × σ :=
  (r.course (r.planner.windows.take n) r.opening (r.opened s)).2

/-- After window number `k` there is a reason to stop. -/
def StopsAt (r : Run σ) (as : List Attempt) (k : Nat) : Prop :=
  k < as.length ∧ (HasSaturated (as.take (k + 1)) ∨ r.GivesUp (as.take (k + 1)))

/-- The run visits the first `n` windows and no more, and its outcome names the reason and sums up
what became of them. -/
def EndsAfter (r : Run σ) (elapsed : Elapsed) (s : σ) (n : Nat) (reason : StopReason) : Prop :=
  let as := (r.answers s).take n
  let last := r.after n s
  ∃ o s', r.execute elapsed s = (.ok o, s') ∧
    r.conclude elapsed reason (last.1.note (stopEntries reason))
      (r.present (stopEntries reason) last.2) = (.ok o, s') ∧
    o.stopReason = reason ∧ o.attempted = n ∧ o.skipped = as.countP (fun a => a.Skipped) ∧
    o.timeline = as.flatMap Attempt.samples

theorem after_counts (r : Run σ) (n : Nat) (s : σ) :
    (r.after n s).1.Counts ((r.answers s).take n) := by
  have hopening : r.opening.Counts [] := RunState.counts_nil.note r.openingEntries
  have hcourse : (r.after n s).1.Counts
      ([] ++ (r.course (r.planner.windows.take n) r.opening (r.opened s)).1) :=
    course_counts hopening
  rw [List.nil_append, course_take] at hcourse
  exact hcourse

theorem answers_length (r : Run σ) (s : σ) : (r.answers s).length = r.planner.windows.length :=
  course_length _ _ _ _

theorem timeline_isNaN (hc : st.Counts as)
    (has : ∀ a ∈ as, ∀ x ∈ a.samples, x.probability.isNaN = false) :
    ∀ x ∈ st.timeline, x.probability.isNaN = false := by
  intro x hx
  rw [hc.timeline, List.mem_flatMap] at hx
  obtain ⟨a, ha, hxa⟩ := hx
  exact has a ha x hxa

section Simulation

variable (hmode : r.mode = .simulate) (hc : st.Counts as)
  (has : ∀ a ∈ as, ∀ x ∈ a.samples, x.probability.isNaN = false)

include hmode hc has

theorem stopReason?_of_saturated (hsat : HasSaturated as) : ∃ clockCycle pMax,
    r.stopReason? st = some (.saturated clockCycle pMax) ∧
      Convergence.ofTimeline st.timeline = .saturated pMax clockCycle := by
  obtain ⟨before, x, after, -, heq, -⟩ :=
    Convergence.ofTimeline_of_reached (timeline_isNaN hc has)
      (hc.timeline ▸ hasSaturated_iff.mp hsat)
  refine ⟨x.clockCycle, x.probability, ?_, heq⟩
  rw [stopReason?, hmode]
  dsimp only
  rw [heq]

theorem stopReason?_of_not_saturated (hsat : ¬ HasSaturated as) :
    r.stopReason? st =
      match r.failureLimit, r.config.horizon with
      | some limit, none =>
        if limit ≤ trailingSkips as then some (.failureLimit (trailingSkips as)) else none
      | _, _ => none := by
  have hbelow : ∀ x ∈ st.timeline, saturation.le x.probability = false := by
    intro x hx
    rw [hasSaturated_iff, ← hc.timeline] at hsat
    exact Bool.eq_false_iff.mpr fun hle => hsat ⟨x, hx, hle⟩
  rw [stopReason?, hmode]
  dsimp only
  rewrite [Convergence.ofTimeline_of_below (timeline_isNaN hc has) hbelow, hc.consecutiveSkips]
  rfl

theorem stopReason?_of_givesUp (hsat : ¬ HasSaturated as) (hup : r.GivesUp as) :
    r.stopReason? st = some (.failureLimit (trailingSkips as)) := by
  obtain ⟨hhorizon, limit, hlimit, hle⟩ := hup
  rw [stopReason?_of_not_saturated hmode hc has hsat, Option.mem_def.mp hlimit, hhorizon]
  exact if_pos hle

theorem stopReason?_eq_none (hsat : ¬ HasSaturated as) (hup : ¬ r.GivesUp as) :
    r.stopReason? st = none := by
  rw [stopReason?_of_not_saturated hmode hc has hsat]
  split
  · rename_i limit hlimit hhorizon
    exact if_neg fun hle => hup ⟨hhorizon, limit, hlimit, hle⟩
  · rfl

end Simulation

/-- Nothing would ever end such a run. -/
def IsUnboundedCheck (r : Run σ) : Prop := r.mode = .check ∧ r.config.horizon = none

theorem not_isUnboundedCheck (hmode : r.mode = .simulate) : ¬ r.IsUnboundedCheck := by
  rintro ⟨hcheck, -⟩
  cases hmode.symm.trans hcheck

theorem execute_eq_follow (hbounded : ¬ r.IsUnboundedCheck)
    (havailable : (r.collaborators.ensureAvailable s).1 = .ok ()) :
    r.execute elapsed s =
      match r.follow r.planner.windows r.opening (r.opened s) with
      | (.error e, s) => (.error e, s)
      | (.ok (reason, st), s) => r.conclude elapsed reason st s := by
  have hpair : r.collaborators.ensureAvailable s =
      (.ok (), (r.collaborators.ensureAvailable s).2) :=
    Prod.ext havailable rfl
  rw [IsUnboundedCheck] at hbounded
  rw [execute, if_neg hbounded, hpair]
  dsimp only
  rw [windows_eq_follow]
  rfl

theorem conclude_ok_or_store (r : Run σ) (elapsed : Elapsed) (reason : StopReason) (st : RunState)
    (s : σ) :
    (∃ e, (r.conclude elapsed reason st s).1 = .error (.store e)) ∨
      ∃ o s', r.conclude elapsed reason st s = (.ok o, s') ∧ o.stopReason = reason ∧
        o.attempted = st.attempted ∧ o.skipped = st.skipped ∧ o.timeline = st.timeline := by
  rw [conclude]
  split
  · exact Or.inl ⟨_, rfl⟩
  · exact Or.inr ⟨_, _, rfl, rfl, rfl, rfl, rfl⟩

theorem endsAfter_of_execute {n : Nat} {reason : StopReason} (hn : n ≤ (r.answers s).length)
    (hstored : ∀ e, (r.execute elapsed s).1 ≠ .error (.store e))
    (hexecute : r.execute elapsed s =
      r.conclude elapsed reason ((r.after n s).1.note (stopEntries reason))
        (r.present (stopEntries reason) (r.after n s).2)) : r.EndsAfter elapsed s n reason := by
  have hc := after_counts r n s
  rcases conclude_ok_or_store r elapsed reason ((r.after n s).1.note (stopEntries reason))
    (r.present (stopEntries reason) (r.after n s).2)
    with ⟨e, he⟩ | ⟨o, s', hok, hreason, hattempted, hskipped, htimeline⟩
  · exact absurd (hexecute ▸ he) (hstored e)
  · refine ⟨o, s', hexecute.trans hok, hok, hreason, ?_, ?_, ?_⟩
    · rw [hattempted]
      exact hc.attempted.trans (List.length_take_of_le hn)
    · rw [hskipped]
      exact hc.skipped
    · rw [htimeline]
      exact hc.timeline

section Stops

variable (hmode : r.mode = .simulate) (havailable : (r.collaborators.ensureAvailable s).1 = .ok ())
  (hrenders : ∀ e, (r.answers s).head? ≠ some (.renderFailed e))
  (hnumbers : ∀ a ∈ r.answers s, ∀ x ∈ a.samples, x.probability.isNaN = false)
  (hstored : ∀ e, (r.execute elapsed s).1 ≠ .error (.store e))

include hmode hnumbers in
theorem stopReason?_after_of_not_stopsAt {k : Nat} (hk : k < (r.answers s).length)
    (hstop : ¬ r.StopsAt (r.answers s) k) : r.stopReason? (r.after (k + 1) s).1 = none := by
  have hneither :
      ¬ (HasSaturated ((r.answers s).take (k + 1)) ∨ r.GivesUp ((r.answers s).take (k + 1))) :=
    fun h => hstop ⟨hk, h⟩
  rw [not_or] at hneither
  exact stopReason?_eq_none hmode (after_counts r (k + 1) s)
    (fun a ha => hnumbers a (List.mem_of_mem_take ha))
    hneither.1 hneither.2

include hmode havailable hrenders hnumbers hstored

theorem endsAfter_of_isLeast {k : Nat} {reason : StopReason}
    (hk : IsLeast {k | r.StopsAt (r.answers s) k} k)
    (hreason : r.stopReason? (r.after (k + 1) s).1 = some reason) :
    r.EndsAfter elapsed s (k + 1) reason := by
  have hlt : k < (r.answers s).length := hk.1.1
  have hearlier : ∀ j < k, r.stopReason? (r.after (j + 1) s).1 = none := by
    intro j hj
    exact stopReason?_after_of_not_stopsAt hmode hnumbers (Nat.lt_trans hj hlt) fun hstop =>
      Nat.not_lt.mpr (hk.2 hstop) hj
  have hfollow := follow_to_stop (Or.inr hrenders) (answers_length r s ▸ hlt) hreason hearlier
  refine endsAfter_of_execute (Nat.succ_le_of_lt hlt) hstored ?_
  rw [execute_eq_follow (not_isUnboundedCheck hmode) havailable, hfollow]
  rfl

theorem endsAfter_saturated {k : Nat} (hk : IsLeast {k | r.StopsAt (r.answers s) k} k)
    (hsat : HasSaturated ((r.answers s).take (k + 1))) :
    ∃ clockCycle pMax, r.EndsAfter elapsed s (k + 1) (.saturated clockCycle pMax) ∧
      Convergence.ofTimeline (((r.answers s).take (k + 1)).flatMap Attempt.samples) =
        .saturated pMax clockCycle := by
  obtain ⟨clockCycle, pMax, hreason, hconverged⟩ :=
    stopReason?_of_saturated hmode (after_counts r (k + 1) s)
      (fun a ha => hnumbers a (List.mem_of_mem_take ha)) hsat
  rw [(after_counts r (k + 1) s).timeline] at hconverged
  exact ⟨clockCycle, pMax,
    endsAfter_of_isLeast hmode havailable hrenders hnumbers hstored hk hreason, hconverged⟩

theorem endsAfter_givenUp {k : Nat} (hk : IsLeast {k | r.StopsAt (r.answers s) k} k)
    (hsat : ¬ HasSaturated ((r.answers s).take (k + 1))) :
    r.EndsAfter elapsed s (k + 1) (.failureLimit (trailingSkips ((r.answers s).take (k + 1)))) := by
  have hup : r.GivesUp ((r.answers s).take (k + 1)) := hk.1.2.resolve_left hsat
  have hreason := stopReason?_of_givesUp hmode (after_counts r (k + 1) s)
    (fun a ha => hnumbers a (List.mem_of_mem_take ha)) hsat hup
  exact endsAfter_of_isLeast hmode havailable hrenders hnumbers hstored hk hreason

theorem endsAfter_last (hnever : ∀ k, ¬ r.StopsAt (r.answers s) k) :
    r.EndsAfter elapsed s (r.answers s).length .horizonExhausted := by
  have hlength := answers_length r s
  have hfollow := follow_to_end (Or.inr hrenders) fun k hk =>
    stopReason?_after_of_not_stopsAt hmode hnumbers (hlength ▸ hk) (hnever k)
  have hall : r.after (r.answers s).length s =
      (r.course r.planner.windows r.opening (r.opened s)).2 := by
    rw [after, hlength, List.take_length]
  have hentries : stopEntries .horizonExhausted = [] := rfl
  refine endsAfter_of_execute (Nat.le_refl _) hstored ?_
  rw [execute_eq_follow (not_isUnboundedCheck hmode) havailable, hfollow, hall, hentries,
    RunState.note, List.append_nil]
  rfl

end Stops

/-- A simulation whose tool is there, whose first window renders and whose results can be stored
ends with the first window that gives a reason to stop, or else with the last window of all. -/
theorem simulate_stops_at_first_reason (hmode : r.mode = .simulate)
    (havailable : (r.collaborators.ensureAvailable s).1 = .ok ())
    (hrenders : ∀ e, (r.answers s).head? ≠ some (.renderFailed e))
    (hnumbers : ∀ a ∈ r.answers s, ∀ x ∈ a.samples, x.probability.isNaN = false)
    (hstored : ∀ e, (r.execute elapsed s).1 ≠ .error (.store e)) :
    (∀ k, IsLeast {k | r.StopsAt (r.answers s) k} k →
      (HasSaturated ((r.answers s).take (k + 1)) →
        ∃ clockCycle pMax, r.EndsAfter elapsed s (k + 1) (.saturated clockCycle pMax) ∧
          Convergence.ofTimeline (((r.answers s).take (k + 1)).flatMap Attempt.samples) =
            .saturated pMax clockCycle) ∧
      (¬ HasSaturated ((r.answers s).take (k + 1)) →
        r.EndsAfter elapsed s (k + 1)
          (.failureLimit (trailingSkips ((r.answers s).take (k + 1)))))) ∧
    ((∀ k, ¬ r.StopsAt (r.answers s) k) →
      r.EndsAfter elapsed s (r.answers s).length .horizonExhausted) := by
  refine ⟨fun k hk => ⟨?_, ?_⟩, ?_⟩
  · exact endsAfter_saturated hmode havailable hrenders hnumbers hstored hk
  · exact endsAfter_givenUp hmode havailable hrenders hnumbers hstored hk
  · exact endsAfter_last hmode havailable hrenders hnumbers hstored

/-- Its second window cannot be read and its third saturates. -/
def interruptedRun : Run Machine where
  config := { size := 2, property := .irDrop, horizon := some 249 }
  mode := .simulate
  resultDir := "r"
  collaborators := .reciting [("(0,49)", [⟨0, .zero⟩]), ("(100,149)", [⟨100, .one⟩, ⟨101, .one⟩])]
  host := Machine.host

def interruptedOutcome : RunOutcome :=
  ⟨.simulate, .saturated 100 .one, 3, 1, [⟨0, .zero⟩, ⟨100, .one⟩, ⟨101, .one⟩], ⟨0, 0⟩,
    .within "r" interruptedRun.config⟩

theorem interruptedRun_answers : interruptedRun.answers {} =
    [.simulated [⟨0, .zero⟩] "(0,49)", .unreadable .noSamples "(50,99)",
      .simulated [⟨100, .one⟩, ⟨101, .one⟩] "(100,149)", .unreadable .noSamples "(150,199)",
      .unreadable .noSamples "(200,249)"] := by
  decide +kernel

theorem interruptedRun_execute : (interruptedRun.execute ⟨0, 0⟩ {}).1 = .ok interruptedOutcome := by
  decide +kernel

theorem interruptedRun_stops_at_third : ∃ clockCycle pMax,
    interruptedRun.EndsAfter ⟨0, 0⟩ {} 3 (.saturated clockCycle pMax) := by
  have hrenders : ∀ e, (interruptedRun.answers {}).head? ≠ some (.renderFailed e) := by
    simp [interruptedRun_answers]
  have hnumbers : ∀ a ∈ interruptedRun.answers {}, ∀ x ∈ a.samples,
      x.probability.isNaN = false := by
    rw [interruptedRun_answers]
    decide
  have hstored : ∀ e, (interruptedRun.execute ⟨0, 0⟩ {}).1 ≠ .error (.store e) := by
    simp [interruptedRun_execute]
  have hlaw := simulate_stops_at_first_reason rfl rfl hrenders hnumbers hstored
  have hsat : HasSaturated ((interruptedRun.answers {}).take 3) := by
    rw [interruptedRun_answers]
    unfold HasSaturated
    decide
  have hearly : ∀ k < 2, ¬ HasSaturated ((interruptedRun.answers {}).take (k + 1)) := by
    rw [interruptedRun_answers]
    unfold HasSaturated
    decide
  have hleast : IsLeast {k | interruptedRun.StopsAt (interruptedRun.answers {}) k} 2 := by
    refine ⟨⟨by simp [interruptedRun_answers], Or.inl hsat⟩, ?_⟩
    rintro k ⟨-, hk | ⟨hhorizon, -⟩⟩
    · exact Nat.le_of_not_lt fun hlt => hearly k hlt hk
    · cases hhorizon
  obtain ⟨clockCycle, pMax, hends, -⟩ := (hlaw.1 2 hleast).1 hsat
  exact ⟨clockCycle, pMax, hends⟩

end Run

end NoiseTimeline
