import NoiseTimeline.Proofs.Run.Failure
import NoiseTimeline.Proofs.Run.Inquiry
import NoiseTimeline.Proofs.Run.Stored
import NoiseTimeline.Proofs.Run.Success

/-! Checks go through all their windows. Neither what the checker reports nor how often it
fails ends one early; each model that renders is checked once, and nothing else is asked. -/

namespace NoiseTimeline.Run

variable {σ : Type} {r : Run σ} {elapsed : Elapsed} {s : σ}

/-- What is asked to check these windows one after the other, and how many of them are skipped. -/
inductive ChecksEach (c : RunConfig) : List Window → List Deed → Nat → Prop
  | done : ChecksEach c [] [] 0
  | notRendered {w : Window} {ws : List Window} {ds : List Deed} {n : Nat} (cause : RenderError)
      (rest : ChecksEach c ws ds n) :
      ChecksEach c (w :: ws) (.rendered (.ofWindow c w) (.error cause) :: ds) (n + 1)
  | failed {w : Window} {ws : List Window} {ds : List Deed} {n : Nat} (text : String)
      (cause : CheckerError)
      (rest : ChecksEach c ws ds n) :
      ChecksEach c (w :: ws) (.rendered (.ofWindow c w) (.ok text) ::
        .called .check (.text (RenderRequest.ofWindow c w).label text) (.error cause) :: ds) (n + 1)
  | passed {w : Window} {ws : List Window} {ds : List Deed} {n : Nat} (text report : String)
      (rest : ChecksEach c ws ds n) :
      ChecksEach c (w :: ws) (.rendered (.ofWindow c w) (.ok text) ::
        .called .check (.text (RenderRequest.ofWindow c w).label text) (.ok report) :: ds) n

section Check

variable (hmode : r.mode = .check)

include hmode

theorem conduct_of_check (ws : List Window) (st : RunState) (s : σ) :
    r.conduct ws st s = ((.horizonExhausted, (r.course ws st s).2.1), (r.course ws st s).2.2) := by
  induction ws generalizing st s with
  | nil => rfl
  | cons w ws ih =>
    have hnone : r.stopReason? (r.visit w st s).2.1 = none := by rw [stopReason?, hmode]
    rw [conduct]
    dsimp only
    rw [hnone]
    exact ih _ _

theorem visit_samples_of_check (w : Window) (st : RunState) (s : σ) :
    (r.visit w st s).1.samples = [] := by
  rcases hrender : r.collaborators.render (.ofWindow r.config w) s with ⟨answer, s'⟩
  cases answer with
  | error e =>
    rw [visit_of_render_error hrender]
    rfl
  | ok text =>
    rw [visit_fst_of_render_ok hrender, hmode]
    exact (r.collaborators.consulted .check _ s').samples_of_check

theorem answers_samples_of_check : (r.answers s).flatMap Attempt.samples = [] := by
  rw [List.flatMap_eq_nil_iff]
  intro a ha
  obtain ⟨w, -, st, s', rfl⟩ := mem_course ha
  exact visit_samples_of_check hmode w st s'

theorem checksEach_inquiries (ws : List Window) (st : RunState) (s : σ) :
    ChecksEach r.config ws (r.inquiries ws st s)
      ((r.course ws st s).1.countP fun a => a.Skipped) := by
  induction ws generalizing st s with
  | nil => exact .done
  | cons w ws ih =>
    have hrest := ih (r.visit w st s).2.1 (r.visit w st s).2.2
    rw [inquiries, course, List.countP_cons]
    rcases hrender : r.collaborators.render (.ofWindow r.config w) s with ⟨answer, s₁⟩
    cases answer with
    | error cause =>
      have hattempt : (r.visit w st s).1 = .renderFailed cause := by
        rw [visit_of_render_error hrender]
      rw [hattempt, inquiry_of_render_error hrender]
      exact .notRendered cause hrest
    | ok text =>
      rw [visit_fst_of_render_ok hrender, inquiry_of_render_ok hrender, hmode]
      have hconsulted :=
        r.collaborators.consulted .check (.text (RenderRequest.ofWindow r.config w).label text) s₁
      generalize r.collaborators.consultation .check _ s₁ = ds at hconsulted ⊢
      generalize (Attempt.ofModel r.collaborators .check _ s₁).1 = a at hconsulted ⊢
      cases hconsulted with
      | notChecked cause => exact .failed text cause hrest
      | checked report => exact .passed text report hrest

end Check

theorem text_write_nil : TimelineCsv.write [] = TimelineCsv.header ++ "\r\n" := by
  simp [TimelineCsv.write]

/-- A check whose tool is there, whose first window renders and whose results can be stored asks
about each window up to the horizon, skips those for which it gets no report, and stores a timeline
without samples. -/
theorem check_is_exhaustive {last : Nat} (hc : r.config.IsValid) (hmode : r.mode = .check)
    (hhorizon : r.config.horizon = some last)
    (havailable : (r.collaborators.ensureAvailable s).1 = .ok ())
    (hrenders : ∃ text, (r.firstRendering s).1 = .ok text)
    (hstored : ∀ e, (r.execute elapsed s).1 ≠ .error (.store e)) :
    ∃ o j ds, r.journaled.execute elapsed ⟨s, []⟩ = (.ok o, j) ∧
      r.execute elapsed s = (.ok o, j.state) ∧ j.questions = .asked (.ok ()) :: ds ∧
      ChecksEach r.config ((List.range (last / r.config.width + 1)).map fun k =>
        ⟨k * r.config.width, min (k * r.config.width + (r.config.width - 1)) last⟩) ds o.skipped ∧
      o.stopReason = .horizonExhausted ∧ o.attempted = last / r.config.width + 1 ∧ o.timeline = [] ∧
      ∀ tree cwd, r.host.HasFiles tree cwd →
        r.host.readText o.artifacts.csv j.state = .ok (TimelineCsv.header ++ "\r\n") := by
  have hbounded : ¬ r.IsUnboundedCheck := by
    rintro ⟨-, hnone⟩
    cases hhorizon.symm.trans hnone
  have hstarts : r.Starts s := ⟨hbounded, havailable, hrenders⟩
  rcases execute_cases hc elapsed s
    with ⟨e, ds, s', hearly, -⟩ | ⟨e, s', -, -, heq⟩ | ⟨a, s', -, -, heq⟩
  · exact absurd hstarts hearly.not_starts
  · exact absurd (congrArg Prod.fst heq) (hstored e)
  obtain ⟨j, hj, rfl, -, hquestions⟩ := questions_of_execute_ok heq
  have hlast : r.config.lastCovered = last := by
    rw [RunConfig.lastCovered, hhorizon, Option.getD_some]
  have hwindows := windows_eq hc
  rw [hlast] at hwindows
  have hlength : r.planner.windows.length = last / r.config.width + 1 := by
    rw [hwindows, List.length_map, List.length_range]
  have hconducted := conduct_of_check hmode r.planner.windows r.opening (r.opened s)
  have hcounts : (r.conducted s).1.2.Counts (r.answers s) := by
    rw [conducted, hconducted]
    exact course_counts (RunState.counts_nil.note r.openingEntries)
  have hattempted : (r.outcome elapsed s a).attempted = last / r.config.width + 1 :=
    hcounts.attempted.trans ((answers_length r s).trans hlength)
  have htimeline : (r.outcome elapsed s a).timeline = [] :=
    hcounts.timeline.trans (answers_samples_of_check hmode)
  rw [hattempted, ← hlength, List.take_length] at hquestions
  have hchecks := checksEach_inquiries hmode r.planner.windows r.opening (r.opened s)
  have hskipped : (r.outcome elapsed s a).skipped = (r.answers s).countP (fun a => a.Skipped) :=
    hcounts.skipped
  refine ⟨_, j, _, hj, heq, hquestions, ?_, ?_, hattempted, htimeline, ?_⟩
  · rw [hskipped, ← hwindows]
    exact hchecks
  · exact congrArg (fun end_ => end_.1.1) hconducted
  · intro tree cwd hf
    have hread := (read_execute hf heq).1
    rw [htimeline, text_write_nil] at hread
    exact hf.readText.mpr (FileTree.readText_of_read hread)

/-- Its second model does not render and its third cannot be checked, and it may not skip
windows. -/
def patchyCheck : Run Machine where
  config := { size := 2, property := .irDrop, horizon := some 149 }
  mode := .check
  failureLimit := some 0
  resultDir := "r"
  collaborators := { Collaborators.reciting [] with
    render := fun request s =>
      (if request.window.lower = 50 then .error (.unresolvedPlaceholder "X")
        else .ok request.window.text, s)
    call := fun _ model s =>
      (if model.content? = some "(100,149)" then .error (.toolNotFound "modest")
        else .ok "error: deadlock", s) }
  host := Machine.host

def patchyOutcome : RunOutcome :=
  ⟨.check, .horizonExhausted, 3, 2, [], ⟨0, 0⟩, .within "r" patchyCheck.config⟩

theorem patchyCheck_execute : (patchyCheck.execute ⟨0, 0⟩ {}).1 = .ok patchyOutcome := by
  have hvalid : patchyCheck.config.IsValid := ⟨rfl, by decide, by decide, by decide⟩
  have hstarts : patchyCheck.Starts {} := ⟨by rintro ⟨-, ⟨⟩⟩, rfl, _, rfl⟩
  exact hstarts.outcome_of_room hvalid rfl ⟨id, fun _ => id, fun _ _ => id, fun _ => id⟩
    (Machine.hasRoom_empty _) (by decide +kernel)

theorem patchyCheck_is_exhaustive :
    ∃ j ds, patchyCheck.journaled.execute ⟨0, 0⟩ ⟨{}, []⟩ = (.ok patchyOutcome, j) ∧
      j.questions = .asked (.ok ()) :: ds ∧
      ChecksEach patchyCheck.config [⟨0, 49⟩, ⟨50, 99⟩, ⟨100, 149⟩] ds 2 ∧
      Machine.host.readText patchyOutcome.artifacts.csv j.state =
        .ok (TimelineCsv.header ++ "\r\n") := by
  have hvalid : patchyCheck.config.IsValid := ⟨rfl, by decide, by decide, by decide⟩
  have hrenders : ∃ text, (patchyCheck.firstRendering {}).1 = .ok text :=
    ⟨"(0,49)", by decide +kernel⟩
  have hstored : ∀ e, (patchyCheck.execute ⟨0, 0⟩ {}).1 ≠ .error (.store e) := by
    simp [patchyCheck_execute]
  obtain ⟨o, j, ds, hj, hexecute, hquestions, hchecks, -, -, -, hcsv⟩ :=
    check_is_exhaustive hvalid rfl rfl rfl hrenders hstored
  obtain rfl : o = patchyOutcome := by
    have hok := patchyCheck_execute
    rw [hexecute] at hok
    exact Except.ok.inj hok
  exact ⟨j, ds, hj, hquestions, hchecks, hcsv Machine.tree Machine.cwd Machine.hasFiles_host⟩

end NoiseTimeline.Run
