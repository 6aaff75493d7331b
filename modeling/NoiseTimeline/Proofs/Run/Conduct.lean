import NoiseTimeline.Proofs.Config
import NoiseTimeline.Proofs.Run.StopLaw

/-! The loop without a look at errors. A run whose first window renders goes through
its windows until there is a reason to stop, and then stores what they have brought. -/

namespace NoiseTimeline

theorem Attempt.ofModel_ne_renderFailed {σ : Type} (c : Collaborators σ) (mode : Mode)
    (model : Model) (s : σ) (e : RenderError) :
    (Attempt.ofModel c mode model s).1 ≠ .renderFailed e := by
  intro h
  unfold Attempt.ofModel at h
  split at h
  · split at h <;> cases h
  · split at h
    · cases h
    · split at h <;> cases h

namespace Run

variable {σ : Type} {r : Run σ} {elapsed : Elapsed} {s s' : σ} {ws : List Window} {st : RunState}

/-- Visits windows until there is a reason to stop. -/
def conduct (r : Run σ) : List Window → RunState → σ → (StopReason × RunState) × σ
  | [], st, s => ((.horizonExhausted, st), s)
  | w :: ws, st, s =>
    let (_, st, s) := r.visit w st s
    match r.stopReason? st with
    | some reason => ((reason, st.note (stopEntries reason)), r.present (stopEntries reason) s)
    | none => conduct r ws st s

theorem follow_eq_conduct (hopens : r.Opens ws st s) :
    r.follow ws st s = (.ok (r.conduct ws st s).1, (r.conduct ws st s).2) := by
  induction ws generalizing st s with
  | nil => rfl
  | cons w ws ih =>
    rw [follow, conduct, attempt_of_opens hopens]
    dsimp only
    cases hreason : r.stopReason? (r.visit w st s).2.1 with
    | some reason => rfl
    | none => exact ih (opens_after_visit r w ws st s)

theorem attempt_of_render_error {w : Window} {e : RenderError}
    (h : r.collaborators.render (.ofWindow r.config w) s = (.error e, s'))
    (hfirst : st.attempted = 0) :
    r.attempt w st s = (.error (.render w e), s') := by
  rw [attempt, h]
  exact if_pos hfirst

theorem attempt_of_render_ok {w : Window} {text : String}
    (h : r.collaborators.render (.ofWindow r.config w) s = (.ok text, s')) :
    r.attempt w st s = (.ok (r.visit w st s).2.1, (r.visit w st s).2.2) := by
  refine attempt_eq_visit (Or.inr ?_)
  rw [visit_fst_of_render_ok h]
  exact Attempt.ofModel_ne_renderFailed _ _ _ _

theorem conduct_of_follow_ok {last : StopReason × RunState}
    (h : r.follow ws st s = (.ok last, s')) :
    r.conduct ws st s = (last, s') := by
  induction ws generalizing st s with
  | nil =>
    cases h
    rfl
  | cons w ws ih =>
    have hvisit : r.attempt w st s = (.ok (r.visit w st s).2.1, (r.visit w st s).2.2) := by
      rcases hrender : r.collaborators.render (.ofWindow r.config w) s with ⟨answer, s₁⟩
      cases answer with
      | ok text => exact attempt_of_render_ok hrender
      | error e =>
        by_cases hfirst : st.attempted = 0
        · rw [follow, attempt_of_render_error hrender hfirst] at h
          cases h
        · exact attempt_eq_visit (Or.inl hfirst)
    rw [follow, hvisit] at h
    rw [conduct]
    dsimp only at h ⊢
    cases hreason : r.stopReason? (r.visit w st s).2.1 with
    | some reason =>
      rw [hreason] at h
      cases h
      rfl
    | none =>
      rw [hreason] at h
      exact ih h

/-- Visits to the windows end after `n` of them. None before gives a reason to stop; the last one
gives this reason, or there are no windows left. -/
structure HaltsAfter (r : Run σ) (ws : List Window) (st : RunState) (s : σ) (n : Nat)
    (reason : StopReason) : Prop where
  le_length : n ≤ ws.length
  goesOn : ∀ k, k + 1 < n → r.stopReason? (r.course (ws.take (k + 1)) st s).2.1 = none
  stops : n = ws.length ∧ reason = .horizonExhausted ∨
    0 < n ∧ r.stopReason? (r.course (ws.take n) st s).2.1 = some reason

theorem HaltsAfter.cons {w : Window} {n : Nat} {reason : StopReason}
    (h : r.HaltsAfter ws (r.visit w st s).2.1 (r.visit w st s).2.2 n reason)
    (hfirst : r.stopReason? (r.visit w st s).2.1 = none) :
    r.HaltsAfter (w :: ws) st s (n + 1) reason := by
  refine ⟨Nat.succ_le_succ h.le_length, ?_, ?_⟩
  · intro k hk
    cases k with
    | zero => exact hfirst
    | succ k => exact h.goesOn k (Nat.lt_of_succ_lt_succ hk)
  · rcases h.stops with ⟨rfl, hreason⟩ | ⟨-, hreason⟩
    · exact Or.inl ⟨rfl, hreason⟩
    · exact Or.inr ⟨Nat.succ_pos n, hreason⟩

theorem HaltsAfter.pos {w : Window} {n : Nat} {reason : StopReason}
    (h : r.HaltsAfter (w :: ws) st s n reason) : 0 < n := by
  rcases h.stops with ⟨rfl, -⟩ | ⟨hpos, -⟩
  · exact Nat.succ_pos _
  · exact hpos

theorem HaltsAfter.of_cons {w : Window} {n : Nat} {reason : StopReason}
    (h : r.HaltsAfter (w :: ws) st s n reason)
    (hfirst : r.stopReason? (r.visit w st s).2.1 = none) :
    ∃ m, n = m + 1 ∧ r.HaltsAfter ws (r.visit w st s).2.1 (r.visit w st s).2.2 m reason := by
  obtain ⟨m, rfl⟩ := Nat.exists_eq_succ_of_ne_zero (Nat.ne_of_gt h.pos)
  refine ⟨m, rfl, Nat.le_of_succ_le_succ h.le_length,
    fun k hk => h.goesOn (k + 1) (Nat.succ_lt_succ hk), ?_⟩
  rcases h.stops with ⟨hlength, hreason⟩ | ⟨-, hreason⟩
  · exact Or.inl ⟨Nat.succ.inj hlength, hreason⟩
  · cases m with
    | zero =>
      have hsome : r.stopReason? (r.visit w st s).2.1 = some reason := hreason
      rw [hfirst] at hsome
      cases hsome
    | succ m => exact Or.inr ⟨Nat.succ_pos m, hreason⟩

/-- What is visited is a first part of the windows, up to the first reason to stop. -/
theorem conduct_haltsAfter (r : Run σ) (ws : List Window) (st : RunState) (s : σ) :
    ∃ n reason, r.HaltsAfter ws st s n reason ∧ r.conduct ws st s =
      ((reason, (r.course (ws.take n) st s).2.1.note (stopEntries reason)),
        r.present (stopEntries reason) (r.course (ws.take n) st s).2.2) := by
  induction ws generalizing st s with
  | nil =>
    refine ⟨0, .horizonExhausted,
      ⟨Nat.le_refl _, fun k hk => absurd hk (Nat.not_lt_zero _), Or.inl ⟨rfl, rfl⟩⟩, ?_⟩
    have hnote : st.note (stopEntries .horizonExhausted) = st := by
      simp [RunState.note, stopEntries]
    rw [conduct, List.take_nil, course, hnote]
    rfl
  | cons w ws ih =>
    cases hreason : r.stopReason? (r.visit w st s).2.1 with
    | some reason =>
      refine ⟨1, reason, ⟨by simp, by omega, Or.inr ⟨Nat.one_pos, hreason⟩⟩, ?_⟩
      rw [conduct]
      simp only [hreason]
      rfl
    | none =>
      obtain ⟨n, reason, hhalts, hconduct⟩ := ih (r.visit w st s).2.1 (r.visit w st s).2.2
      refine ⟨n + 1, reason, hhalts.cons hreason, ?_⟩
      rw [conduct]
      simp only [hreason, hconduct]
      rfl

def firstWindow (r : Run σ) : Window := ⟨0, min (r.config.width - 1) r.config.lastCovered⟩

theorem windows_eq (hc : r.config.IsValid) :
    r.planner.windows = (List.range (r.config.lastCovered / r.config.width + 1)).map fun k =>
      ⟨k * r.config.width, min (k * r.config.width + (r.config.width - 1)) r.config.lastCovered⟩ :=
  Planner.windows_new hc.width_pos fun h hh => Nat.le_pred_of_lt (hc.horizon h hh)

theorem windows_ascending (hc : r.config.IsValid) :
    r.planner.windows.Pairwise fun v w => v.upper < w.lower := by
  rw [windows_eq hc, List.pairwise_map]
  refine List.pairwise_lt_range.imp fun {j k} hjk => ?_
  have hnext : (j + 1) * r.config.width ≤ k * r.config.width := Nat.mul_le_mul_right _ hjk
  have hpos := hc.width_pos
  rw [Nat.succ_mul] at hnext
  dsimp only
  omega

theorem windows_eq_cons (hc : r.config.IsValid) :
    r.planner.windows = r.firstWindow :: r.planner.windows.tail := by
  rw [windows_eq hc, List.range_succ_eq_map, List.map_cons, List.tail_cons, firstWindow,
    Nat.zero_mul, Nat.zero_add]

theorem mem_windows (hc : r.config.IsValid) {w : Window} (hw : w ∈ r.planner.windows) :
    w.lower ≤ w.upper ∧ w.upper ≤ r.config.lastCovered := by
  rw [windows_eq hc] at hw
  obtain ⟨k, hk, rfl⟩ := List.mem_map.mp hw
  have hle : k * r.config.width ≤ r.config.lastCovered :=
    (Nat.le_div_iff_mul_le hc.width_pos).mp (Nat.le_of_lt_succ (List.mem_range.mp hk))
  dsimp only
  omega

/-- The host state and the answer when the model of the first window is asked for. -/
def firstRendering (r : Run σ) (s : σ) : Except RenderError String × σ :=
  r.collaborators.render (.ofWindow r.config r.firstWindow) (r.opened s)

/-- Nothing stands in the way of the first call of the checker. -/
structure Starts (r : Run σ) (s : σ) : Prop where
  bounded : ¬ r.IsUnboundedCheck
  available : (r.collaborators.ensureAvailable s).1 = .ok ()
  renders : ∃ text, (r.firstRendering s).1 = .ok text

theorem Starts.opens (hc : r.config.IsValid) (h : r.Starts s) :
    r.Opens r.planner.windows r.opening (r.opened s) := by
  obtain ⟨text, htext⟩ := h.renders
  refine Or.inr fun e he => ?_
  rw [windows_eq_cons hc, course, List.head?_cons,
    visit_fst_of_render_ok (Prod.ext htext rfl)] at he
  exact Attempt.ofModel_ne_renderFailed _ _ _ _ e (Option.some.inj he)

/-- The reason for stopping and all that the windows of a run have brought. -/
def conducted (r : Run σ) (s : σ) : (StopReason × RunState) × σ :=
  r.conduct r.planner.windows r.opening (r.opened s)

theorem conducted_haltsAfter (r : Run σ) (s : σ) : ∃ n reason,
    r.HaltsAfter r.planner.windows r.opening (r.opened s) n reason ∧
      r.conducted s = ((reason, (r.after n s).1.note (stopEntries reason)),
        r.present (stopEntries reason) (r.after n s).2) ∧
      (r.conducted s).1.2.attempted = n := by
  obtain ⟨n, reason, hhalts, h⟩ := r.conduct_haltsAfter r.planner.windows r.opening (r.opened s)
  refine ⟨n, reason, hhalts, h, ?_⟩
  have hattempted : (r.after n s).1.attempted = n := by
    rw [(after_counts r n s).attempted,
      List.length_take_of_le (answers_length r s ▸ hhalts.le_length)]
  rw [conducted, h]
  exact hattempted

theorem conducted_eq_after (r : Run σ) (s : σ) : ∃ n ≤ r.planner.windows.length, ∃ reason,
    r.conducted s = ((reason, (r.after n s).1.note (stopEntries reason)),
      r.present (stopEntries reason) (r.after n s).2) ∧ (r.conducted s).1.2.attempted = n := by
  obtain ⟨n, reason, hhalts, h⟩ := r.conducted_haltsAfter s
  exact ⟨n, hhalts.le_length, reason, h⟩

theorem Starts.execute_eq (hc : r.config.IsValid) (h : r.Starts s) :
    r.execute elapsed s = r.conclude elapsed (r.conducted s).1.1 (r.conducted s).1.2
      (r.conducted s).2 := by
  rw [execute_eq_follow h.bounded h.available, follow_eq_conduct (h.opens hc)]
  rfl

theorem execute_of_unboundedCheck (h : r.IsUnboundedCheck) :
    r.execute elapsed s = (.error .unboundedCheck, s) := by
  rw [IsUnboundedCheck] at h
  rw [execute, if_pos h]

theorem execute_of_unavailable {e : CheckerError} (hbounded : ¬ r.IsUnboundedCheck)
    (h : r.collaborators.ensureAvailable s = (.error e, s')) :
    r.execute elapsed s = (.error (.precondition e), s') := by
  rw [IsUnboundedCheck] at hbounded
  rw [execute, if_neg hbounded, h]

/-- A run that ends well has found its tool, gone through its windows and stored what they have
brought. -/
theorem execute_eq_ok_cases {o : RunOutcome} (h : r.execute elapsed s = (.ok o, s')) :
    ¬ r.IsUnboundedCheck ∧ (r.collaborators.ensureAvailable s).1 = .ok () ∧
      r.follow r.planner.windows r.opening (r.opened s) =
        (.ok (r.conducted s).1, (r.conducted s).2) ∧
      r.conclude elapsed (r.conducted s).1.1 (r.conducted s).1.2 (r.conducted s).2 =
        (.ok o, s') := by
  have hbounded : ¬ r.IsUnboundedCheck := by
    intro hunbounded
    rw [execute_of_unboundedCheck hunbounded] at h
    cases h
  rcases havailable : r.collaborators.ensureAvailable s with ⟨answer, s₁⟩
  cases answer with
  | error e =>
    rw [execute_of_unavailable hbounded havailable] at h
    cases h
  | ok _ =>
    have hok : (r.collaborators.ensureAvailable s).1 = .ok () := congrArg Prod.fst havailable
    rw [execute_eq_follow hbounded hok] at h
    rcases hfollow : r.follow r.planner.windows r.opening (r.opened s) with ⟨answer, s₂⟩
    rw [hfollow] at h
    cases answer with
    | error e => cases h
    | ok last =>
      have hconducted : r.conducted s = (last, s₂) := conduct_of_follow_ok hfollow
      rw [hconducted]
      exact ⟨hbounded, rfl, rfl, h⟩

theorem execute_of_render_error {e : RenderError} (hc : r.config.IsValid)
    (hbounded : ¬ r.IsUnboundedCheck) (havailable : (r.collaborators.ensureAvailable s).1 = .ok ())
    (h : r.firstRendering s = (.error e, s')) :
    r.execute elapsed s = (.error (.render r.firstWindow e), s') := by
  rw [firstRendering] at h
  rw [execute_eq_follow hbounded havailable, windows_eq_cons hc, follow,
    attempt_of_render_error h rfl]

/-- The end of a run on the store: its log and its timeline. -/
def storing (r : Run σ) (elapsed : Elapsed) (s : σ) : Except StoreError Artifacts × σ :=
  let last := r.conducted s
  let closing := r.closingEntries last.1.1 elapsed
  Artifacts.persist r.host r.resultDir r.config last.1.2.timeline
    (RunLog.contents (last.1.2.entries ++ closing)) (r.present closing last.2)

/-- The outcome of a run that has stored its results. -/
def outcome (r : Run σ) (elapsed : Elapsed) (s : σ) (artifacts : Artifacts) : RunOutcome :=
  let last := (r.conducted s).1
  ⟨r.mode, last.1, last.2.attempted, last.2.skipped, last.2.timeline, elapsed, artifacts⟩

theorem storing_of_execute_ok {o : RunOutcome} (h : r.execute elapsed s = (.ok o, s')) :
    r.storing elapsed s = (.ok o.artifacts, s') ∧ o = r.outcome elapsed s o.artifacts := by
  obtain ⟨-, -, -, hconclude⟩ := execute_eq_ok_cases h
  rcases hstoring : r.storing elapsed s with ⟨answer, s₁⟩
  dsimp only [storing] at hstoring
  rw [conclude, hstoring] at hconclude
  cases answer with
  | error e => cases hconclude
  | ok a =>
    cases hconclude
    exact ⟨rfl, rfl⟩

theorem Starts.execute_of_store_error {e : StoreError} (hc : r.config.IsValid) (h : r.Starts s)
    (hstoring : r.storing elapsed s = (.error e, s')) :
    r.execute elapsed s = (.error (.store e), s') := by
  dsimp only [storing] at hstoring
  rw [h.execute_eq hc, conclude, hstoring]

theorem Starts.attempted_eq {o : RunOutcome} (hc : r.config.IsValid) (h : r.Starts s)
    (ho : (r.execute elapsed s).1 = .ok o) : o.attempted = (r.conducted s).1.2.attempted := by
  rw [h.execute_eq hc] at ho
  rcases conclude_ok_or_store r elapsed (r.conducted s).1.1 (r.conducted s).1.2
    (r.conducted s).2 with
    ⟨e, he⟩ | ⟨o', s', hok, -, hattempted, -⟩
  · rw [he] at ho
    cases ho
  · rw [hok] at ho
    cases ho
    exact hattempted

theorem Starts.execute_of_stored {a : Artifacts} (hc : r.config.IsValid) (h : r.Starts s)
    (hstoring : r.storing elapsed s = (.ok a, s')) :
    r.execute elapsed s = (.ok (r.outcome elapsed s a), s') := by
  dsimp only [storing] at hstoring
  rw [h.execute_eq hc, conclude, hstoring]
  rfl

end Run

end NoiseTimeline
