import NoiseTimeline.Proofs.Run.Journal

/-! What a run asks its collaborators. One visit asks for one model and takes it to the
checker; a run that ends well has asked this for the windows it attempted and no others. -/

namespace NoiseTimeline

variable {σ : Type}

/-- What is asked about a model, with the answers. -/
def Collaborators.consultation (c : Collaborators σ) (mode : Mode) (model : Model)
    (s : σ) : List Deed :=
  match mode with
  | .check => [.called .check model (c.call .check model s).1]
  | .simulate =>
    match c.call .simulate model s with
    | (.error e, _) => [.called .simulate model (.error e)]
    | (.ok trace, s) => [.called .simulate model (.ok trace), .parsed trace (c.parse trace s).1]

/-- The same with what becomes of the window. -/
inductive Consulted (model : Model) : Mode → List Deed → Attempt → Prop
  | notChecked (cause : CheckerError) :
      Consulted model .check [.called .check model (.error cause)] (.checkFailed cause)
  | checked (report : String) :
      Consulted model .check [.called .check model (.ok report)] (.checked report)
  | notSimulated (cause : CheckerError) :
      Consulted model .simulate [.called .simulate model (.error cause)] (.simulateFailed cause)
  | unreadable (trace : String) (cause : TraceError) :
      Consulted model .simulate [.called .simulate model (.ok trace), .parsed trace (.error cause)]
        (.unreadable cause trace)
  | simulated (trace : String) (samples : List Sample) :
      Consulted model .simulate [.called .simulate model (.ok trace), .parsed trace (.ok samples)]
        (.simulated samples trace)

theorem Collaborators.consulted (c : Collaborators σ) (mode : Mode) (model : Model) (s : σ) :
    Consulted model mode (c.consultation mode model s) (Attempt.ofModel c mode model s).1 := by
  cases mode with
  | check =>
    rw [consultation, Attempt.ofModel]
    rcases c.call .check model s with ⟨answer, s'⟩
    cases answer with
    | error cause => exact .notChecked cause
    | ok report => exact .checked report
  | simulate =>
    rw [consultation, Attempt.ofModel]
    rcases c.call .simulate model s with ⟨answer, s'⟩
    cases answer with
    | error cause => exact .notSimulated cause
    | ok trace =>
      dsimp only
      rcases c.parse trace s' with ⟨answer, s''⟩
      cases answer with
      | error cause => exact .unreadable trace cause
      | ok samples => exact .simulated trace samples

namespace Consulted

variable {model : Model} {mode : Mode} {ds : List Deed} {a : Attempt}

theorem isQuestion (h : Consulted model mode ds a) : ∀ d ∈ ds, d.isQuestion = true := by
  cases h <;> simp [Deed.isQuestion]

theorem rendering? (h : Consulted model mode ds a) : ds.filterMap Deed.rendering? = [] := by
  cases h <;> rfl

theorem samples_of_check (h : Consulted model .check ds a) : a.samples = [] := by
  cases h <;> rfl

end Consulted

theorem Collaborators.journaled_ofModel (c : Collaborators σ) (mode : Mode) (model : Model)
    (j : Journaled σ) :
    Attempt.ofModel c.journaled mode model j =
      ((Attempt.ofModel c mode model j.state).1,
        ⟨(Attempt.ofModel c mode model j.state).2,
          j.deeds ++ c.consultation mode model j.state⟩) := by
  have hcall : ∀ profile, c.journaled.call profile model j = ((c.call profile model j.state).1,
      ⟨(c.call profile model j.state).2,
        j.deeds ++ [.called profile model (c.call profile model j.state).1]⟩) := fun _ => rfl
  cases mode with
  | check =>
    rw [Attempt.ofModel, Attempt.ofModel, consultation, hcall]
    rcases c.call .check model j.state with ⟨answer, s⟩
    cases answer <;> rfl
  | simulate =>
    rw [Attempt.ofModel, Attempt.ofModel, consultation, hcall]
    rcases c.call .simulate model j.state with ⟨answer, s⟩
    cases answer with
    | error e => rfl
    | ok trace =>
      have hparse : ∀ ds, c.journaled.parse trace ⟨s, ds⟩ =
          ((c.parse trace s).1, ⟨(c.parse trace s).2, ds ++ [.parsed trace (c.parse trace s).1]⟩) :=
        fun _ => rfl
      dsimp only
      rw [hparse]
      rcases c.parse trace s with ⟨answer, s'⟩
      cases answer <;> simp only [List.append_assoc, List.singleton_append]

namespace Run

variable {r : Run σ} {elapsed : Elapsed} {s s' : σ}

def inquiry (r : Run σ) (w : Window) (s : σ) : List Deed :=
  let request := RenderRequest.ofWindow r.config w
  match r.collaborators.render request s with
  | (.error e, _) => [.rendered request (.error e)]
  | (.ok text, s) =>
    .rendered request (.ok text) :: r.collaborators.consultation r.mode (.text request.label text) s

theorem inquiry_of_render_error {w : Window} {e : RenderError}
    (h : r.collaborators.render (.ofWindow r.config w) s = (.error e, s')) :
    r.inquiry w s = [.rendered (.ofWindow r.config w) (.error e)] := by
  rw [inquiry, h]

theorem inquiry_of_render_ok {w : Window} {text : String}
    (h : r.collaborators.render (.ofWindow r.config w) s = (.ok text, s')) :
    r.inquiry w s = .rendered (.ofWindow r.config w) (.ok text) ::
      r.collaborators.consultation r.mode (.text (RenderRequest.ofWindow r.config w).label text)
        s' := by
  rw [inquiry, h]

def inquiries (r : Run σ) : List Window → RunState → σ → List Deed
  | [], _, _ => []
  | w :: ws, st, s => r.inquiry w s ++ inquiries r ws (r.visit w st s).2.1 (r.visit w st s).2.2

theorem journaled_settle (r : Run σ) (w : Window) (a : Attempt) (st : RunState) (j : Journaled σ) :
    r.journaled.settle w a st j =
      ((r.settle w a st j.state).1, { j with state := (r.settle w a st j.state).2 }) := by
  simp only [settle, journaled_present]
  split <;> rfl

theorem journaled_visit (r : Run σ) (w : Window) (st : RunState) (j : Journaled σ) :
    r.journaled.visit w st j = ((r.visit w st j.state).1, (r.visit w st j.state).2.1,
      ⟨(r.visit w st j.state).2.2, j.deeds ++ r.inquiry w j.state⟩) := by
  have hrender : r.journaled.collaborators.render (.ofWindow r.journaled.config w) j =
      ((r.collaborators.render (.ofWindow r.config w) j.state).1,
        ⟨(r.collaborators.render (.ofWindow r.config w) j.state).2,
          j.deeds ++ [.rendered (.ofWindow r.config w)
            (r.collaborators.render (.ofWindow r.config w) j.state).1]⟩) := rfl
  rw [visit, visit, inquiry, hrender]
  rcases r.collaborators.render (.ofWindow r.config w) j.state with ⟨answer, s⟩
  cases answer with
  | error e =>
    dsimp only
    rw [journaled_settle]
  | ok text =>
    have hmodel : ∀ model j, Attempt.ofModel r.journaled.collaborators r.journaled.mode model
        j = _ :=
      r.collaborators.journaled_ofModel r.mode
    dsimp only
    rw [hmodel, journaled_settle, journaled_present, List.append_assoc, List.singleton_append]
    rfl

theorem journaled_course (r : Run σ) (ws : List Window) (st : RunState) (j : Journaled σ) :
    r.journaled.course ws st j = ((r.course ws st j.state).1, (r.course ws st j.state).2.1,
      ⟨(r.course ws st j.state).2.2, j.deeds ++ r.inquiries ws st j.state⟩) := by
  induction ws generalizing st j with
  | nil => rw [course, course, inquiries, List.append_nil]
  | cons w ws ih =>
    rw [course, course, inquiries, journaled_visit, ih]
    dsimp only
    rw [List.append_assoc]

theorem isQuestion_of_mem_inquiry {w : Window} {d : Deed} (h : d ∈ r.inquiry w s) :
    d.isQuestion = true := by
  rcases hrender : r.collaborators.render (.ofWindow r.config w) s with ⟨answer, s'⟩
  cases answer with
  | error e =>
    rw [inquiry_of_render_error hrender] at h
    cases List.mem_singleton.mp h
    rfl
  | ok text =>
    rw [inquiry_of_render_ok hrender] at h
    rcases List.mem_cons.mp h with rfl | h
    · rfl
    · exact (r.collaborators.consulted _ _ _).isQuestion d h

theorem isQuestion_of_mem_inquiries {ws : List Window} {st : RunState} {d : Deed}
    (h : d ∈ r.inquiries ws st s) :
    d.isQuestion = true := by
  induction ws generalizing st s with
  | nil => cases h
  | cons w ws ih =>
    rcases List.mem_append.mp h with h | h
    · exact isQuestion_of_mem_inquiry h
    · exact ih h

theorem rendering?_inquiry (r : Run σ) (w : Window) (s : σ) :
    (r.inquiry w s).filterMap Deed.rendering? =
    [(.ofWindow r.config w, (r.collaborators.render (.ofWindow r.config w) s).1)] := by
  rcases hrender : r.collaborators.render (.ofWindow r.config w) s with ⟨answer, s'⟩
  cases answer with
  | error e =>
    rw [inquiry_of_render_error hrender]
    rfl
  | ok text =>
    rw [inquiry_of_render_ok hrender]
    exact congrArg (List.cons _) (r.collaborators.consulted _ _ _).rendering?

theorem requests_inquiries (r : Run σ) (ws : List Window) (st : RunState) (s : σ) :
    ((r.inquiries ws st s).filterMap Deed.rendering?).map Prod.fst =
      ws.map (.ofWindow r.config) := by
  induction ws generalizing st s with
  | nil => rfl
  | cons w ws ih =>
    rw [inquiries, List.filterMap_append, rendering?_inquiry, List.map_append, ih]
    rfl

theorem conducted_questions (r : Run σ) (elapsed : Elapsed) (s : σ) :
    ∃ n ≤ r.planner.windows.length, let last := r.journaled.conducted ⟨s, []⟩
    last.1.2.attempted = n ∧ (r.journaled.conclude elapsed last.1.1 last.1.2 last.2).2.questions =
      .asked (r.collaborators.ensureAvailable s).1 ::
        r.inquiries (r.planner.windows.take n) r.opening (r.opened s) := by
  obtain ⟨n, hn, reason, hconducted, hattempted⟩ := r.journaled.conducted_eq_after ⟨s, []⟩
  refine ⟨n, hn, hattempted, ?_⟩
  have hcourse := journaled_course r (r.planner.windows.take n) r.opening
    ⟨r.opened s, [.asked (r.collaborators.ensureAvailable s).1]⟩
  have hafter : (r.journaled.after n ⟨s, []⟩).2.deeds =
      .asked (r.collaborators.ensureAvailable s).1 ::
      r.inquiries (r.planner.windows.take n) r.opening (r.opened s) := by
    rw [after, journaled_opened]
    exact congrArg (fun last => last.2.2.deeds) hcourse
  rw [journaled_conclude_questions, hconducted, journaled_present, Journaled.questions, hafter]
  exact List.filter_eq_self.mpr
    (List.forall_mem_cons.mpr ⟨rfl, fun d => isQuestion_of_mem_inquiries⟩)

theorem questions_of_execute_ok {o : RunOutcome} (h : r.execute elapsed s = (.ok o, s')) :
    ∃ j, r.journaled.execute elapsed ⟨s, []⟩ = (.ok o, j) ∧ j.state = s' ∧
      o.attempted ≤ r.planner.windows.length ∧ j.questions = .asked (.ok ()) ::
        r.inquiries (r.planner.windows.take o.attempted) r.opening (r.opened s) := by
  obtain ⟨hanswer, hstate⟩ := r.journaled_execute elapsed ⟨s, []⟩
  rw [h] at hanswer hstate
  have hj : r.journaled.execute elapsed ⟨s, []⟩ =
      (.ok o, (r.journaled.execute elapsed ⟨s, []⟩).2) := Prod.ext hanswer rfl
  obtain ⟨-, -, -, hconclude⟩ := execute_eq_ok_cases hj
  obtain ⟨-, havailable, -, -⟩ := execute_eq_ok_cases h
  obtain ⟨n, hn, hattempted, hquestions⟩ := r.conducted_questions elapsed s
  have hcount : o.attempted = n :=
    (congrArg RunOutcome.attempted (storing_of_execute_ok hj).2).trans hattempted
  rw [hconclude, havailable, ← hcount] at hquestions
  exact ⟨_, hj, hstate, hcount ▸ hn, hquestions⟩

/-- The windows whose models the run has asked for. -/
def requested (r : Run σ) (elapsed : Elapsed) (s : σ) : List Window :=
  (r.journaled.execute elapsed ⟨s, []⟩).2.renderings.map fun rendering => rendering.1.window

theorem windows_of_questions {j : Journaled σ} {available : Except CheckerError Unit}
    {ws : List Window} {st : RunState} (h : j.questions = .asked available :: r.inquiries ws st s) :
    (j.renderings.map fun rendering => rendering.1.window) = ws := by
  have hrequests : j.renderings.map Prod.fst = ws.map (.ofWindow r.config) := by
    rw [Journaled.renderings_eq, h]
    exact requests_inquiries r _ _ _
  have hwindow : ∀ w, (RenderRequest.ofWindow r.config w).window = w := fun _ => rfl
  calc (j.renderings.map fun rendering => rendering.1.window)
      = (j.renderings.map Prod.fst).map RenderRequest.window := by rw [List.map_map]; rfl
    _ = ws := by simp only [hrequests, List.map_map, Function.comp_def, hwindow, List.map_id']

theorem requested_of_execute_ok {o : RunOutcome} (h : r.execute elapsed s = (.ok o, s')) :
    r.requested elapsed s = r.planner.windows.take o.attempted ∧
    o.attempted ≤ r.planner.windows.length := by
  obtain ⟨j, hj, -, hattempted, hquestions⟩ := questions_of_execute_ok h
  rw [requested, hj]
  exact ⟨windows_of_questions hquestions, hattempted⟩

end Run

end NoiseTimeline
