import Mathlib.Data.List.Basic
import NoiseTimeline.Proofs.Window
import NoiseTimeline.Run.Loop
import NoiseTimeline.Store.Machine

/-! Visits to windows in order, without a look at whether the run should stop. What
a run has gathered is a function of the attempts so far. -/

namespace NoiseTimeline

/-- The window was neither checked nor simulated with a trace that could be read. -/
def Attempt.Skipped (a : Attempt) : Prop :=
  (∀ report, a ≠ .checked report) ∧ ∀ samples trace, a ≠ .simulated samples trace

theorem Attempt.isSkipped_iff {a : Attempt} : a.isSkipped = true ↔ a.Skipped := by
  cases a <;> simp [isSkipped, Skipped]

instance (a : Attempt) : Decidable a.Skipped := decidable_of_iff _ Attempt.isSkipped_iff

theorem Attempt.decide_skipped (a : Attempt) : decide a.Skipped = a.isSkipped := by
  rw [Bool.eq_iff_iff, decide_eq_true_eq, isSkipped_iff]

/-- How many attempts at the end of the list were skipped, one after the other. -/
def trailingSkips (as : List Attempt) : Nat := (as.reverse.takeWhile fun a => a.Skipped).length

theorem trailingSkips_eq (as : List Attempt) :
    trailingSkips as = (as.reverse.takeWhile Attempt.isSkipped).length := by
  simp only [trailingSkips, Attempt.decide_skipped]

theorem trailingSkips_concat (as : List Attempt) (a : Attempt) :
    trailingSkips (as ++ [a]) = if a.isSkipped then trailingSkips as + 1 else 0 := by
  rw [trailingSkips_eq, trailingSkips_eq, List.reverse_append, List.reverse_singleton,
    List.singleton_append, List.takeWhile_cons]
  split
  · rfl
  · rfl

theorem Attempt.ofModel_of_trace {σ : Type} {c : Collaborators σ} {model : Model} {trace : String}
    {samples : List Sample} {s : σ} (hcall : (c.call .simulate model s).1 = .ok trace)
    (hparse : ∀ s, (c.parse trace s).1 = .ok samples) :
    (Attempt.ofModel c .simulate model s).1 = .simulated samples trace := by
  have hanswer : c.call .simulate model s = (.ok trace, (c.call .simulate model s).2) :=
    Prod.ext hcall rfl
  have hread : ∀ s, c.parse trace s = (.ok samples, (c.parse trace s).2) :=
    fun s => Prod.ext (hparse s) rfl
  rw [Attempt.ofModel, hanswer]
  dsimp only
  rw [hread]

/-- What holds of no samples and of each trace that is read holds of the samples of any window. -/
theorem Attempt.ofModel_samples {σ : Type} {c : Collaborators σ} {P : List Sample → Prop}
    (hnil : P []) (hparse : ∀ trace s xs, (c.parse trace s).1 = .ok xs → P xs) (mode : Mode)
    (model : Model) (s : σ) :
    P (ofModel c mode model s).1.samples := by
  unfold ofModel
  split
  · split <;> exact hnil
  · split
    · exact hnil
    · split
      · rename_i heq
        exact hparse _ _ _ (congrArg Prod.fst heq)
      · exact hnil

namespace RunState

/-- The state is what some attempts, in this order, have brought. -/
structure Counts (st : RunState) (as : List Attempt) : Prop where
  timeline : st.timeline = as.flatMap Attempt.samples
  attempted : st.attempted = as.length
  skipped : st.skipped = as.countP fun a => a.Skipped
  consecutiveSkips : st.consecutiveSkips = trailingSkips as

variable {st : RunState} {as : List Attempt}

theorem counts_nil : Counts {} [] := ⟨rfl, rfl, rfl, rfl⟩

theorem Counts.note (h : st.Counts as) (entries : List LogEntry) : (st.note entries).Counts as :=
  ⟨h.timeline, h.attempted, h.skipped, h.consecutiveSkips⟩

theorem Counts.record (h : st.Counts as) (a : Attempt) : (st.record a).Counts (as ++ [a]) where
  timeline := by
    rw [RunState.record, List.flatMap_append, List.flatMap_singleton, h.timeline]
  attempted := by
    rw [RunState.record, List.length_append, List.length_singleton, h.attempted]
  skipped := by
    rw [RunState.record, List.countP_append, List.countP_singleton, h.skipped,
      Attempt.decide_skipped]
    cases a.isSkipped <;> rfl
  consecutiveSkips := by
    rw [RunState.record, trailingSkips_concat, h.consecutiveSkips]

end RunState

namespace Run

variable {σ : Type} {r : Run σ} {w : Window} {ws : List Window} {st : RunState} {s : σ}
  {as : List Attempt}

/-- One window, whether or not it is the first, and what became of it. -/
def visit (r : Run σ) (w : Window) (st : RunState) (s : σ) : Attempt × RunState × σ :=
  let request := RenderRequest.ofWindow r.config w
  match r.collaborators.render request s with
  | (.error e, s) => (.renderFailed e, r.settle w (.renderFailed e) st s)
  | (.ok text, s) =>
    let model := Model.text request.label text
    let (a, s) := Attempt.ofModel r.collaborators r.mode model s
    let (st, s) := r.settle w a st s
    let kept := keptEntries (r.collaborators.keptModel model s)
    (a, st.note kept, r.present kept s)

/-- The windows one after the other: what became of each, and the state after the last. -/
def course (r : Run σ) : List Window → RunState → σ → List Attempt × RunState × σ
  | [], st, s => ([], st, s)
  | w :: ws, st, s =>
    let first := r.visit w st s
    let rest := course r ws first.2.1 first.2.2
    (first.1 :: rest.1, rest.2)

/-- The path under which the model of a window is kept once it has been used. -/
def kept? (r : Run σ) (w : Window) (st : RunState) (s : σ) : Option String :=
  match r.collaborators.render (.ofWindow r.config w) s with
  | (.error _, _) => none
  | (.ok text, s) =>
    let model := Model.text (RenderRequest.ofWindow r.config w).label text
    let (a, s) := Attempt.ofModel r.collaborators r.mode model s
    r.collaborators.keptModel model (r.settle w a st s).2

theorem visit_of_render_error {e : RenderError} {s' : σ}
    (h : r.collaborators.render (.ofWindow r.config w) s = (.error e, s')) :
    r.visit w st s = (.renderFailed e, r.settle w (.renderFailed e) st s') := by
  rw [visit, h]

theorem visit_fst_of_render_ok {text : String} {s' : σ}
    (h : r.collaborators.render (.ofWindow r.config w) s = (.ok text, s')) :
    (r.visit w st s).1 =
      (Attempt.ofModel r.collaborators r.mode (.text (RenderRequest.ofWindow r.config w).label text)
        s').1 := by
  rw [visit, h]

theorem visit_samples {P : List Sample → Prop} (hnil : P [])
    (hparse : ∀ trace s xs, (r.collaborators.parse trace s).1 = .ok xs → P xs) (w : Window)
    (st : RunState) (s : σ) :
    P (r.visit w st s).1.samples := by
  rcases hrender : r.collaborators.render (.ofWindow r.config w) s with ⟨answer, s'⟩
  cases answer with
  | error e =>
    rw [visit_of_render_error hrender]
    exact hnil
  | ok text =>
    rw [visit_fst_of_render_ok hrender]
    exact Attempt.ofModel_samples hnil hparse _ _ _

theorem attempt_eq_visit (h : st.attempted ≠ 0 ∨ ∀ e, (r.visit w st s).1 ≠ .renderFailed e) :
    r.attempt w st s = (.ok (r.visit w st s).2.1, (r.visit w st s).2.2) := by
  rcases hrender : r.collaborators.render (.ofWindow r.config w) s with ⟨answer, s'⟩
  cases answer with
  | error e =>
    rw [visit_of_render_error hrender] at h ⊢
    rw [attempt, hrender]
    rcases h with h | h
    · exact if_neg h
    · exact absurd rfl (h e)
  | ok text => rw [attempt, visit, hrender]

theorem kept?_of_render_error {e : RenderError} {s' : σ}
    (h : r.collaborators.render (.ofWindow r.config w) s = (.error e, s')) :
    r.kept? w st s = none := by
  rw [kept?, h]

theorem visit_state (r : Run σ) (w : Window) (st : RunState) (s : σ) : (r.visit w st s).2.1 =
    (st.record (r.visit w st s).1).note
      ((r.visit w st s).1.entries w (st.record (r.visit w st s).1).pMax ++
      keptEntries (r.kept? w st s)) := by
  have hnote : ∀ (st : RunState) (es es' : List LogEntry),
      (st.note es).note es' = st.note (es ++ es') := by
    intro st es es'
    rw [RunState.note, RunState.note, RunState.note, List.append_assoc]
  have hnone : keptEntries none = [] := rfl
  rcases hrender : r.collaborators.render (.ofWindow r.config w) s with ⟨answer, s'⟩
  cases answer with
  | error e =>
    rw [kept?_of_render_error hrender, visit_of_render_error hrender, hnone, List.append_nil]
    rfl
  | ok text =>
    rw [visit, kept?, hrender]
    exact hnote _ _ _

theorem visit_counts (h : st.Counts as) :
    (r.visit w st s).2.1.Counts (as ++ [(r.visit w st s).1]) := by
  rw [visit_state]
  exact (h.record _).note _

theorem course_counts (h : st.Counts as) :
    (r.course ws st s).2.1.Counts (as ++ (r.course ws st s).1) := by
  induction ws generalizing st s as with
  | nil =>
    rw [course, List.append_nil]
    exact h
  | cons w ws ih =>
    have hrest := ih (s := (r.visit w st s).2.2) (visit_counts (r := r) (w := w) (s := s) h)
    rw [List.append_assoc, List.singleton_append] at hrest
    exact hrest

theorem course_length (r : Run σ) (ws : List Window) (st : RunState) (s : σ) :
    (r.course ws st s).1.length = ws.length := by
  induction ws generalizing st s with
  | nil => rfl
  | cons w ws ih => rw [course, List.length_cons, List.length_cons, ih]

theorem course_take (r : Run σ) (ws : List Window) (n : Nat) (st : RunState) (s : σ) :
    (r.course (ws.take n) st s).1 = (r.course ws st s).1.take n := by
  induction ws generalizing n st s with
  | nil => simp [course]
  | cons w ws ih =>
    cases n with
    | zero => rfl
    | succ n =>
      rw [List.take_succ_cons, course, course]
      dsimp only
      rw [ih, List.take_succ_cons]

theorem mem_course {a : Attempt} (h : a ∈ (r.course ws st s).1) :
    ∃ w ∈ ws, ∃ st s, a = (r.visit w st s).1 := by
  induction ws generalizing st s with
  | nil => cases h
  | cons w ws ih =>
    rcases List.mem_cons.mp h with rfl | h
    · exact ⟨w, List.mem_cons_self, st, s, rfl⟩
    · obtain ⟨v, hv, hvisit⟩ := ih h
      exact ⟨v, List.mem_cons_of_mem w hv, hvisit⟩

/-- The loop over windows that are listed beforehand. -/
def follow (r : Run σ) : List Window → RunState → σ → Except RunError (StopReason × RunState) × σ
  | [], st, s => (.ok (.horizonExhausted, st), s)
  | w :: ws, st, s =>
    match r.attempt w st s with
    | (.error e, s) => (.error e, s)
    | (.ok st, s) =>
      match r.stopReason? st with
      | some reason =>
        let entries := stopEntries reason
        (.ok (reason, st.note entries), r.present entries s)
      | none => follow r ws st s

theorem windows_eq_follow (r : Run σ) (n : Nat) (p : Planner) (st : RunState) (s : σ) :
    r.windows n p st s = r.follow (p.upTo n) st s := by
  induction n generalizing p st s with
  | zero => rfl
  | succ n ih =>
    rcases hnext : p.next with ⟨next, p'⟩
    rw [windows, Planner.upTo, hnext]
    cases next with
    | none => rfl
    | some w =>
      dsimp only
      rw [follow]
      obtain ⟨answer, s'⟩ := r.attempt w st s
      cases answer with
      | error e => rfl
      | ok st' =>
        cases hreason : r.stopReason? st' with
        | some reason => simp only [hreason]
        | none =>
          simp only [hreason]
          exact ih p' st' s'

/-- The first window renders, or it is not the first of the run. -/
def Opens (r : Run σ) (ws : List Window) (st : RunState) (s : σ) : Prop :=
  st.attempted ≠ 0 ∨ ∀ e, (r.course ws st s).1.head? ≠ some (.renderFailed e)

theorem attempt_of_opens (h : r.Opens (w :: ws) st s) :
    r.attempt w st s = (.ok (r.visit w st s).2.1, (r.visit w st s).2.2) := by
  apply attempt_eq_visit
  rcases h with h | h
  · exact Or.inl h
  · refine Or.inr fun e he => h e ?_
    rw [course, List.head?_cons, he]

theorem opens_after_visit (r : Run σ) (w : Window) (ws : List Window) (st : RunState) (s : σ) :
    r.Opens ws (r.visit w st s).2.1 (r.visit w st s).2.2 := by
  left
  rw [visit_state]
  exact Nat.succ_ne_zero _

theorem follow_to_end (hopens : r.Opens ws st s)
    (hnone : ∀ k < ws.length, r.stopReason? (r.course (ws.take (k + 1)) st s).2.1 = none) :
    r.follow ws st s =
      (.ok (.horizonExhausted, (r.course ws st s).2.1), (r.course ws st s).2.2) := by
  induction ws generalizing st s with
  | nil => rfl
  | cons w ws ih =>
    have hfirst : r.stopReason? (r.visit w st s).2.1 = none := hnone 0 (Nat.succ_pos _)
    rw [follow, attempt_of_opens hopens]
    dsimp only
    rw [hfirst]
    exact ih (opens_after_visit r w ws st s) fun k hk => hnone (k + 1) (Nat.succ_lt_succ hk)

/-- The windows up to the first that gives a reason to stop are visited, and no more. -/
theorem follow_to_stop {n : Nat} {reason : StopReason} (hopens : r.Opens ws st s)
    (hn : n < ws.length) (hstop : r.stopReason? (r.course (ws.take (n + 1)) st s).2.1 = some reason)
    (hnone : ∀ k < n, r.stopReason? (r.course (ws.take (k + 1)) st s).2.1 = none) :
    r.follow ws st s =
      (.ok (reason, (r.course (ws.take (n + 1)) st s).2.1.note (stopEntries reason)),
      r.present (stopEntries reason) (r.course (ws.take (n + 1)) st s).2.2) := by
  induction ws generalizing st s n with
  | nil => exact absurd hn (Nat.not_lt_zero n)
  | cons w ws ih =>
    rw [follow, attempt_of_opens hopens]
    dsimp only
    cases n with
    | zero =>
      have hfirst : r.stopReason? (r.visit w st s).2.1 = some reason := hstop
      rw [hfirst]
      rfl
    | succ n =>
      have hfirst : r.stopReason? (r.visit w st s).2.1 = none := hnone 0 (Nat.succ_pos _)
      rw [hfirst]
      exact ih (opens_after_visit r w ws st s) (Nat.lt_of_succ_lt_succ hn) hstop
        fun k hk => hnone (k + 1) (Nat.succ_lt_succ hk)

end Run

/-- Collaborators that know the samples of some windows by the windows' texts, and read no
others. -/
def Collaborators.reciting (table : List (String × List Sample)) : Collaborators Machine where
  toolName := "modest"
  ensureAvailable s := (.ok (), s)
  render request s := (.ok request.window.text, s)
  call _ model s := (.ok (model.content?.getD ""), s)
  keptModel _ _ := none
  parse trace s := ((table.lookup trace).elim (.error .noSamples) .ok, s)

end NoiseTimeline
