import NoiseTimeline.Proofs.Run.Inquiry

/-! Collaborators that answer by fixed rules. What is asked about a window and what becomes
of it then do not depend on what went before. -/

namespace NoiseTimeline

variable {σ τ : Type}

/-- Rules by which models are rendered, called and their traces read. -/
structure Answers where
  render : RenderRequest → Except RenderError String
  call : Profile → Model → Except CheckerError String
  parse : String → Except TraceError (List Sample)

/-- The state may change from answer to answer, but no answer depends on it. -/
structure Collaborators.GivenBy (c : Collaborators σ) (a : Answers) : Prop where
  render : ∀ request s, (c.render request s).1 = a.render request
  call : ∀ profile model s, (c.call profile model s).1 = a.call profile model
  parse : ∀ trace s, (c.parse trace s).1 = a.parse trace

namespace Collaborators.GivenBy

variable {a : Answers} {c : Collaborators τ} {d : Collaborators σ}

theorem render_eq (hc : c.GivenBy a) (hd : d.GivenBy a) (request : RenderRequest) (t : τ) (s : σ) :
    (c.render request t).1 = (d.render request s).1 :=
  (hc.render request t).trans (hd.render request s).symm

theorem call_eq (hc : c.GivenBy a) (hd : d.GivenBy a) (profile : Profile) (model : Model) (t : τ)
    (s : σ) :
    (c.call profile model t).1 = (d.call profile model s).1 :=
  (hc.call profile model t).trans (hd.call profile model s).symm

theorem parse_eq (hc : c.GivenBy a) (hd : d.GivenBy a) (trace : String) (t : τ) (s : σ) :
    (c.parse trace t).1 = (d.parse trace s).1 :=
  (hc.parse trace t).trans (hd.parse trace s).symm

theorem consultation_eq (hc : c.GivenBy a) (hd : d.GivenBy a) (mode : Mode) (model : Model) (t : τ)
    (s : σ) :
    c.consultation mode model t = d.consultation mode model s := by
  have hcall := hc.call_eq hd
  cases mode with
  | check => rw [Collaborators.consultation, Collaborators.consultation, hcall .check model t s]
  | simulate =>
    rw [Collaborators.consultation, Collaborators.consultation]
    rcases ht : c.call .simulate model t with ⟨answer, t'⟩
    rcases hs : d.call .simulate model s with ⟨answer', s'⟩
    obtain rfl : answer = answer' := by
      have hanswer := hcall .simulate model t s
      rwa [ht, hs] at hanswer
    cases answer with
    | error e => rfl
    | ok trace =>
      dsimp only
      rw [hc.parse_eq hd trace t' s']

end Collaborators.GivenBy

namespace Run

variable {q : Run τ} {r : Run σ} {a : Answers}

section Congruence

variable (hq : q.collaborators.GivenBy a) (hr : r.collaborators.GivenBy a) (hmode : q.mode = r.mode)
  (hrequest : RenderRequest.ofWindow q.config = RenderRequest.ofWindow r.config)

include hq hr hrequest

theorem exists_rendering (w : Window) (t : τ) (s : σ) : ∃ answer t' s',
    q.collaborators.render (.ofWindow q.config w) t = (answer, t') ∧
      r.collaborators.render (.ofWindow r.config w) s = (answer, s') := by
  have hanswer := hq.render_eq hr (.ofWindow q.config w) t s
  rw [hrequest] at hanswer ⊢
  exact ⟨_, _, _, rfl, Prod.ext hanswer.symm rfl⟩

include hmode

theorem visit_congr (w : Window) (st st' : RunState) (t : τ) (s : σ) :
    (q.visit w st t).1 = (r.visit w st' s).1 := by
  obtain ⟨answer, t', s', ht, hs⟩ := exists_rendering hq hr hrequest w t s
  cases answer with
  | error e => rw [visit_of_render_error ht, visit_of_render_error hs]
  | ok text =>
    have hmodel : Matches (fun _ _ => True)
        (Attempt.ofModel q.collaborators r.mode
          (.text (RenderRequest.ofWindow r.config w).label text) t')
        (Attempt.ofModel r.collaborators r.mode
          (.text (RenderRequest.ofWindow r.config w).label text) s') :=
      Matches.ofModel (fun profile model t s _ => ⟨hq.call_eq hr profile model t s, trivial⟩)
        (fun trace t s _ => ⟨hq.parse_eq hr trace t s, trivial⟩) _ _ trivial
    rw [visit_fst_of_render_ok ht, visit_fst_of_render_ok hs, hmode, hrequest]
    exact hmodel.1

theorem course_congr (ws : List Window) (st st' : RunState) (t : τ) (s : σ) :
    (q.course ws st t).1 = (r.course ws st' s).1 := by
  induction ws generalizing st st' t s with
  | nil => rfl
  | cons w ws ih =>
    rw [course, course]
    dsimp only
    rw [visit_congr hq hr hmode hrequest w st st' t s, ih]

theorem inquiry_congr (w : Window) (t : τ) (s : σ) : q.inquiry w t = r.inquiry w s := by
  obtain ⟨answer, t', s', ht, hs⟩ := exists_rendering hq hr hrequest w t s
  cases answer with
  | error e => rw [inquiry_of_render_error ht, inquiry_of_render_error hs, hrequest]
  | ok text =>
    rw [inquiry_of_render_ok ht, inquiry_of_render_ok hs, hmode, hrequest,
      hq.consultation_eq hr _ _ t' s']

theorem inquiries_congr (ws : List Window) (st st' : RunState) (t : τ) (s : σ) :
    q.inquiries ws st t = r.inquiries ws st' s := by
  induction ws generalizing st st' t s with
  | nil => rfl
  | cons w ws ih =>
    rw [inquiries, inquiries, inquiry_congr hq hr hmode hrequest w t s, ih]

theorem answers_isPrefix (hwindows : q.planner.windows <+: r.planner.windows) (t : τ) (s : σ) :
    q.answers t <+: r.answers s := by
  have htake := List.prefix_iff_eq_take.mp hwindows
  rw [answers, answers, course_congr hq hr hmode hrequest _ q.opening r.opening _ (r.opened s),
    htake, course_take]
  exact List.take_prefix _ _

end Congruence

end Run

def Answers.reciting (table : List (String × List Sample)) : Answers where
  render request := .ok request.window.text
  call _ model := .ok (model.content?.getD "")
  parse trace := (table.lookup trace).elim (.error .noSamples) .ok

theorem Collaborators.reciting_givenBy (table : List (String × List Sample)) :
    (Collaborators.reciting table).GivenBy (.reciting table) :=
  ⟨fun _ _ => rfl, fun _ _ _ => rfl, fun _ _ => rfl⟩

end NoiseTimeline
