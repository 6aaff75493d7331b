import NoiseTimeline.Proofs.Run.Journal
import NoiseTimeline.Proofs.Store.Replacement

/-! How a run fails. What can end it before the first call of the checker is found in
one order, and nothing has been called or stored then; later only storing can fail. -/

namespace NoiseTimeline.Run

variable {σ : Type} {r : Run σ} {elapsed : Elapsed} {s s' : σ} {e : RunError} {deeds : List Deed}

/-- The run ends with an error before the first call of the checker, having done no more than these
deeds. -/
inductive FailsEarly (r : Run σ) (s : σ) : RunError → List Deed → σ → Prop
  | unboundedCheck (h : r.IsUnboundedCheck) : FailsEarly r s .unboundedCheck [] s
  | precondition {cause : CheckerError} {s' : σ} (hbounded : ¬ r.IsUnboundedCheck)
      (h : r.collaborators.ensureAvailable s = (.error cause, s')) :
      FailsEarly r s (.precondition cause) [.asked (.error cause)] s'
  | render {cause : RenderError} {s' : σ} (hbounded : ¬ r.IsUnboundedCheck)
      (havailable : (r.collaborators.ensureAvailable s).1 = .ok ())
        (h : r.firstRendering s = (.error cause, s')) :
      FailsEarly r s (.render r.firstWindow cause)
        [.asked (.ok ()), .rendered (.ofWindow r.config r.firstWindow) (.error cause)] s'

theorem starts_or_failsEarly (r : Run σ) (s : σ) :
    r.Starts s ∨ ∃ e deeds s', r.FailsEarly s e deeds s' := by
  by_cases hbounded : r.IsUnboundedCheck
  · exact Or.inr ⟨_, _, _, .unboundedCheck hbounded⟩
  rcases havailable : r.collaborators.ensureAvailable s with ⟨answer, s₁⟩
  cases answer with
  | error cause => exact Or.inr ⟨_, _, _, .precondition hbounded havailable⟩
  | ok _ =>
    have hok : (r.collaborators.ensureAvailable s).1 = .ok () := congrArg Prod.fst havailable
    rcases hrender : r.firstRendering s with ⟨answer, s₂⟩
    cases answer with
    | error cause => exact Or.inr ⟨_, _, _, .render hbounded hok hrender⟩
    | ok text => exact Or.inl ⟨hbounded, hok, text, congrArg Prod.fst hrender⟩

theorem FailsEarly.not_starts (h : r.FailsEarly s e deeds s') : ¬ r.Starts s := by
  rintro ⟨hbounded, havailable, text, hrenders⟩
  cases h with
  | unboundedCheck h => exact hbounded h
  | precondition _ h => simp [h] at havailable
  | render _ _ h => simp [h] at hrenders

theorem FailsEarly.execute_eq (hc : r.config.IsValid) (h : r.FailsEarly s e deeds s') :
    r.execute elapsed s = (.error e, s') := by
  cases h with
  | unboundedCheck h => exact execute_of_unboundedCheck h
  | precondition hbounded h => exact execute_of_unavailable hbounded h
  | render hbounded havailable h => exact execute_of_render_error hc hbounded havailable h

theorem execute_cases (hc : r.config.IsValid) (elapsed : Elapsed) (s : σ) :
    (∃ e deeds s', r.FailsEarly s e deeds s' ∧ r.execute elapsed s = (.error e, s')) ∨
    (∃ cause s', r.Starts s ∧ r.storing elapsed s = (.error cause, s') ∧
      r.execute elapsed s = (.error (.store cause), s')) ∨
    ∃ a s', r.Starts s ∧ r.storing elapsed s = (.ok a, s') ∧
    r.execute elapsed s = (.ok (r.outcome elapsed s a), s') := by
  rcases r.starts_or_failsEarly s with hstarts | ⟨e, deeds, s', hearly⟩
  · rcases hstoring : r.storing elapsed s with ⟨answer, s'⟩
    cases answer with
    | error cause =>
      exact Or.inr (Or.inl ⟨cause, s', hstarts, rfl, hstarts.execute_of_store_error hc hstoring⟩)
    | ok a => exact Or.inr (Or.inr ⟨a, s', hstarts, rfl, hstarts.execute_of_stored hc hstoring⟩)
  · exact Or.inl ⟨e, deeds, s', hearly, hearly.execute_eq hc⟩

theorem FailsEarly.journaled (h : r.FailsEarly s e deeds s') (earlier : List Deed) :
    r.journaled.FailsEarly ⟨s, earlier⟩ e deeds ⟨s', earlier ++ deeds⟩ := by
  cases h with
  | unboundedCheck h =>
    rw [List.append_nil]
    exact .unboundedCheck h
  | precondition hbounded h =>
    refine .precondition hbounded ?_
    simp [Run.journaled, Collaborators.journaled, Journaled.enter, h]
  | render hbounded havailable h =>
    refine .render hbounded havailable ?_
    rw [journaled_firstRendering, h, havailable]

theorem FailsEarly.tree_eq {tree : σ → FileTree} {cwd : σ → Location}
    (h : r.FailsEarly s e deeds s') (hf : r.host.HasFiles tree cwd)
    (havailable : ∀ s, tree (r.collaborators.ensureAvailable s).2 = tree s)
    (hrender : ∀ request s, tree (r.collaborators.render request s).2 = tree s) :
    tree s' = tree s := by
  have hpresent : ∀ entries s, tree (r.present entries s) = tree s := by
    intro entries s
    rw [present]
    induction entries.flatMap (r.logConfig.shown r.echo) generalizing s with
    | nil => rfl
    | cons line lines ih => rw [List.foldl_cons, ih, (hf.say line s).1]
  cases h with
  | unboundedCheck _ => rfl
  | precondition _ h =>
    have hasked := havailable s
    rwa [h] at hasked
  | render _ _ h =>
    have hasked := hrender (.ofWindow r.config r.firstWindow) (r.opened s)
    rw [← firstRendering, h, opened, hpresent, havailable] at hasked
    exact hasked

/-- A run fails for one of four reasons, which are looked for in this order: a check without a
horizon, a tool that is not there, a first model that does not render, and results that cannot be
stored. After the first three nothing has been called and no file has changed. -/
theorem execute_fails_exactly (hc : r.config.IsValid) (elapsed : Elapsed) (s : σ) :
    (∀ e s', r.execute elapsed s = (.error e, s') ↔ (∃ deeds, r.FailsEarly s e deeds s') ∨
      ∃ cause, e = .store cause ∧ r.Starts s ∧ r.storing elapsed s = (.error cause, s')) ∧
    (∀ o s', r.execute elapsed s = (.ok o, s') ↔
      r.Starts s ∧ ∃ a, r.storing elapsed s = (.ok a, s') ∧ o = r.outcome elapsed s a) ∧
    (r.Starts s ↔ ∀ e deeds s', ¬ r.FailsEarly s e deeds s') ∧
    ∀ e deeds s', r.FailsEarly s e deeds s' →
      (∀ earlier, r.journaled.execute elapsed ⟨s, earlier⟩ = (.error e, ⟨s', earlier ++ deeds⟩)) ∧
      ∀ tree cwd, r.host.HasFiles tree cwd →
        (∀ s, tree (r.collaborators.ensureAvailable s).2 = tree s) →
        (∀ request s, tree (r.collaborators.render request s).2 = tree s) → tree s' = tree s := by
  have hcases := execute_cases hc elapsed s
  refine ⟨?_, ?_, ?_, ?_⟩
  · intro e s'
    constructor
    · intro h
      rw [h] at hcases
      rcases hcases with ⟨e, deeds, s', hearly, heq⟩ | ⟨cause, s', hstarts, hstoring, heq⟩ | ⟨a, s',
        -, -, heq⟩
      · cases heq
        exact Or.inl ⟨deeds, hearly⟩
      · cases heq
        exact Or.inr ⟨cause, rfl, hstarts, hstoring⟩
      · cases heq
    · rintro (⟨deeds, hearly⟩ | ⟨cause, rfl, hstarts, hstoring⟩)
      · exact hearly.execute_eq hc
      · exact hstarts.execute_of_store_error hc hstoring
  · intro o s'
    constructor
    · intro h
      rw [h] at hcases
      rcases hcases with ⟨e, deeds, s', -, heq⟩ | ⟨cause, s', -, -, heq⟩ | ⟨a, s', hstarts,
        hstoring, heq⟩
      · cases heq
      · cases heq
      · cases heq
        exact ⟨hstarts, a, hstoring, rfl⟩
    · rintro ⟨hstarts, a, hstoring, rfl⟩
      exact hstarts.execute_of_stored hc hstoring
  · refine ⟨fun hstarts e deeds s' h => h.not_starts hstarts, fun h => ?_⟩
    exact (r.starts_or_failsEarly s).resolve_right fun ⟨e, deeds, s', hearly⟩ => h e deeds s' hearly
  · intro e deeds s' h
    exact ⟨fun earlier => (h.journaled earlier).execute_eq hc, fun tree cwd => h.tree_eq⟩

/-- Its template has a placeholder for which there is no value. -/
def unfilledRun : Run Machine where
  config := { size := 2, property := .irDrop, horizon := some 30 }
  mode := .simulate
  resultDir := "r"
  collaborators := { Collaborators.reciting [] with
    render := fun request s => (Template.render "n=\x7b\x7bNODES\x7d\x7d" request, s) }
  host := Machine.host

def unfilledError : RenderError := .unresolvedPlaceholder "\x7b\x7bNODES\x7d\x7d"

theorem unfilledRun_fails_early :
    unfilledRun.journaled.execute ⟨0, 0⟩ ⟨{}, []⟩ =
      (.error (.render ⟨0, 30⟩ unfilledError),
        ⟨unfilledRun.opened {},
          [.asked (.ok ()),
            .rendered (.ofWindow unfilledRun.config ⟨0, 30⟩) (.error unfilledError)]⟩) := by
  have hvalid : unfilledRun.config.IsValid := ⟨rfl, by decide, by decide, by decide⟩
  have hrender : unfilledRun.firstRendering {} = (.error unfilledError, unfilledRun.opened {}) := by
    refine Prod.ext ?_ rfl
    decide +kernel
  have hearly := FailsEarly.render (not_isUnboundedCheck rfl) rfl hrender
  exact ((execute_fails_exactly hvalid ⟨0, 0⟩ {}).2.2.2 _ _ _ hearly).1 []

end NoiseTimeline.Run
