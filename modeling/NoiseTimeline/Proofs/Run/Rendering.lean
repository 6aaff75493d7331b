import NoiseTimeline.Proofs.Run.Failure
import NoiseTimeline.Proofs.Run.Inquiry
import NoiseTimeline.Proofs.Run.Success
import NoiseTimeline.Proofs.Template

/-! Runs that fill in a template. Either the first model cannot be rendered and the
run fails, or the model of each window it comes to is rendered. -/

namespace NoiseTimeline.Run

variable {σ : Type} {r : Run σ} {elapsed : Elapsed} {s : σ}
  {answer : RenderRequest → Except RenderError String}

theorem renderings_inquiries
    (hrender : ∀ request s, (r.collaborators.render request s).1 = answer request)
    (ws : List Window) (st : RunState) (s : σ) : (r.inquiries ws st s).filterMap Deed.rendering? =
      ws.map fun w => (.ofWindow r.config w, answer (.ofWindow r.config w)) := by
  induction ws generalizing st s with
  | nil => rfl
  | cons w ws ih =>
    rw [inquiries, List.filterMap_append, rendering?_inquiry, hrender, ih]
    rfl

theorem Starts.journaled_renderings (hc : r.config.IsValid) (h : r.Starts s)
    (hrender : ∀ request s, (r.collaborators.render request s).1 = answer request)
    (elapsed : Elapsed) :
    ∃ n ≤ r.planner.windows.length,
      (r.journaled.execute elapsed ⟨s, []⟩).2.renderings =
        (r.planner.windows.take n).map
          (fun w => (.ofWindow r.config w, answer (.ofWindow r.config w))) ∧
      ∀ o, (r.journaled.execute elapsed ⟨s, []⟩).1 = .ok o → o.attempted = n := by
  have hcj : r.journaled.config.IsValid := hc
  obtain ⟨n, hn, hattempted, hquestions⟩ := r.conducted_questions elapsed s
  refine ⟨n, hn, ?_, fun o ho => ((h.journaled []).attempted_eq hcj ho).trans hattempted⟩
  rw [(h.journaled []).execute_eq hcj, Journaled.renderings_eq, hquestions]
  exact renderings_inquiries hrender _ _ _

/-- A template renders for all windows or for none, whatever the configuration. So a run that fills
one in fails with the first window's model, or renders the model of each window that it attempts. -/
theorem template_renders_first_or_all (template : String) :
    (∀ (c : RunConfig) (v w : Window),
      (∃ text, Template.render template (.ofWindow c v) = .ok text) ↔
      ∃ text, Template.render template (.ofWindow c w) = .ok text) ∧
    ∀ {σ : Type} (r : Run σ), r.config.IsValid →
      (∀ request s, r.collaborators.render request s = (Template.render template request, s)) →
      ∀ elapsed s, let kept := r.journaled.execute elapsed ⟨s, []⟩
      kept.1 = (r.execute elapsed s).1 ∧ kept.2.state = (r.execute elapsed s).2 ∧
      ((∃ e, kept.1 = .error (.render r.firstWindow e)) ∨
        (∀ rendering ∈ kept.2.renderings, ∃ text, rendering.2 = .ok text) ∧
        ∀ o, kept.1 = .ok o →
          kept.2.renderings.map Prod.fst =
            (r.planner.windows.take o.attempted).map (.ofWindow r.config)) := by
  refine ⟨Template.render_eq_ok_congr template, ?_⟩
  intro σ r hc hrender elapsed s kept
  obtain ⟨hanswer, hstate⟩ := r.journaled_execute elapsed ⟨s, []⟩
  refine ⟨hanswer, hstate, ?_⟩
  rcases r.starts_or_failsEarly s with hstarts | ⟨e, deeds, s', hearly⟩
  · have hrendered : ∀ request s,
        (r.collaborators.render request s).1 = Template.render template request := by
      intro request s
      rw [hrender]
    obtain ⟨n, -, hrenderings, hattempted⟩ := hstarts.journaled_renderings hc hrendered elapsed
    refine Or.inr ⟨?_, ?_⟩
    · intro rendering hmem
      rw [hrenderings] at hmem
      obtain ⟨w, -, rfl⟩ := List.mem_map.mp hmem
      have hfirst : ∃ text, Template.render template (.ofWindow r.config r.firstWindow) =
          .ok text := by
        obtain ⟨text, htext⟩ := hstarts.renders
        rw [firstRendering, hrender] at htext
        dsimp only at htext
        exact ⟨text, htext⟩
      dsimp only
      exact (Template.render_eq_ok_congr template r.config r.firstWindow w).mp hfirst
    · intro o ho
      rw [hattempted o ho, hrenderings, List.map_map]
      rfl
  · have hcj : r.journaled.config.IsValid := hc
    have hkept : kept = (.error e, ⟨s', [] ++ deeds⟩) := (hearly.journaled []).execute_eq hcj
    rw [hkept]
    cases hearly with
    | render _ _ h => exact Or.inl ⟨_, rfl⟩
    | _ => exact Or.inr ⟨by simp [Journaled.renderings, Deed.rendering?], by simp⟩

/-- Its flits have braces of their own and look like a placeholder. -/
def bracedRun : Run Machine where
  config := { size := 2, property := .irDrop, horizon := some 120, flits := some "\x7bCLK_LOW\x7d" }
  mode := .simulate
  resultDir := "r"
  collaborators := { Collaborators.reciting [("50-99 \x7bCLK_LOW\x7d", [⟨50, .zero⟩])] with
    render :=
      fun request s =>
        (Template.render "\x7b\x7bCLK_LOW\x7d\x7d-\x7b\x7bCLK_HIGH\x7d\x7d \x7b\x7bFLITS\x7d\x7d"
          request, s) }
  host := Machine.host

def bracedOutcome : RunOutcome :=
  ⟨.simulate, .horizonExhausted, 3, 2, [⟨50, .zero⟩], ⟨0, 0⟩, .within "r" bracedRun.config⟩

theorem bracedRun_execute : (bracedRun.execute ⟨0, 0⟩ {}).1 = .ok bracedOutcome := by
  have hvalid : bracedRun.config.IsValid := ⟨rfl, by decide, by decide, by decide⟩
  have hstarts : bracedRun.Starts {} := ⟨not_isUnboundedCheck rfl, rfl, _, rfl⟩
  exact hstarts.outcome_of_room hvalid rfl ⟨id, fun _ => id, fun _ _ => id, fun _ => id⟩
    (Machine.hasRoom_empty _) (by decide +kernel)

theorem bracedRun_renders_all :
    (∀ rendering ∈ (bracedRun.journaled.execute ⟨0, 0⟩ ⟨{}, []⟩).2.renderings,
      ∃ text, rendering.2 = .ok text) ∧
    (bracedRun.journaled.execute ⟨0, 0⟩ ⟨{}, []⟩).2.renderings.map Prod.fst =
      [⟨0, 49⟩, ⟨50, 99⟩, ⟨100, 120⟩].map (.ofWindow bracedRun.config) := by
  have hvalid : bracedRun.config.IsValid := ⟨rfl, by decide, by decide, by decide⟩
  obtain ⟨hanswer, -, hrenders⟩ :=
    (template_renders_first_or_all
        "\x7b\x7bCLK_LOW\x7d\x7d-\x7b\x7bCLK_HIGH\x7d\x7d \x7b\x7bFLITS\x7d\x7d").2
      bracedRun hvalid (fun _ _ => rfl) ⟨0, 0⟩ {}
  have hok := hanswer.trans bracedRun_execute
  have hthree : bracedRun.planner.windows.take bracedOutcome.attempted =
      [⟨0, 49⟩, ⟨50, 99⟩, ⟨100, 120⟩] := by
    decide +kernel
  rcases hrenders with ⟨e, he⟩ | ⟨hall, hwindows⟩
  · rw [hok] at he
    cases he
  · have hrequests := hwindows bracedOutcome hok
    rw [hthree] at hrequests
    exact ⟨hall, hrequests⟩

end NoiseTimeline.Run
