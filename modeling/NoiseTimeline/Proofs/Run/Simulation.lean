import NoiseTimeline.Proofs.Run.Conduct

/-! Runs of one configuration on different hosts. When the collaborators answer alike
and the hosts stay related, the loops go the same way. -/

namespace NoiseTimeline

variable {σ τ : Type}

/-- Two steps with the same answer that lead to related states. -/
def Matches {α : Type} (R : τ → σ → Prop) (a : α × τ) (b : α × σ) : Prop := a.1 = b.1 ∧ R a.2 b.2

theorem Matches.exists_eq {α : Type} {R : τ → σ → Prop} {a : α × τ} {b : α × σ}
    (h : Matches R a b) :
    ∃ x t s, a = (x, t) ∧ b = (x, s) ∧ R t s :=
  ⟨a.1, a.2, b.2, rfl, Prod.ext h.1.symm rfl, h.2⟩

theorem Matches.andThen {α : Type} {R : τ → σ → Prop} {a : Except IoError Unit × τ}
    {b : Except IoError Unit × σ} {f : τ → Except IoError α × τ} {g : σ → Except IoError α × σ}
    (h : Matches R a b) (hnext : ∀ {t s}, R t s → Matches R (f t) (g s)) :
    Matches R (Disk.andThen a f) (Disk.andThen b g) := by
  obtain ⟨answer, t, s, rfl, rfl, hR⟩ := h.exists_eq
  cases answer with
  | error e => exact ⟨rfl, hR⟩
  | ok _ => exact hnext hR

theorem Matches.onPath {α : Type} {R : τ → σ → Prop} {a : Except IoError α × τ}
    {b : Except IoError α × σ} (path : String) (h : Matches R a b) :
    Matches R (Artifacts.onPath path a) (Artifacts.onPath path b) :=
  ⟨congrArg (Except.mapError (StoreError.io path)) h.1, h.2⟩

theorem Matches.ofModel {R : τ → σ → Prop} {c : Collaborators τ} {d : Collaborators σ} {t : τ}
    {s : σ}
    (hcall : ∀ profile model {t s}, R t s →
      Matches R (c.call profile model t) (d.call profile model s))
    (hparse : ∀ trace {t s}, R t s → Matches R (c.parse trace t) (d.parse trace s)) (mode : Mode)
    (model : Model) (hR : R t s) :
    Matches R (Attempt.ofModel c mode model t) (Attempt.ofModel d mode model s) := by
  cases mode with
  | check =>
    obtain ⟨answer, t', s', ht, hs, hR'⟩ := (hcall .check model hR).exists_eq
    simp only [Attempt.ofModel, ht, hs]
    cases answer <;> exact ⟨rfl, hR'⟩
  | simulate =>
    obtain ⟨answer, t', s', ht, hs, hR'⟩ := (hcall .simulate model hR).exists_eq
    simp only [Attempt.ofModel, ht, hs]
    cases answer with
    | error e => exact ⟨rfl, hR'⟩
    | ok trace =>
      obtain ⟨parsed, t'', s'', ht', hs', hR''⟩ := (hparse trace hR').exists_eq
      simp only [ht', hs']
      cases parsed <;> exact ⟨rfl, hR''⟩

/-- What is stored on one host is stored on the other, with the same success. -/
structure Host.Simulates (k : Host τ) (h : Host σ) (R : τ → σ → Prop) : Prop where
  makeDirectories : ∀ path {t s}, R t s →
    Matches R (k.makeDirectories path t) (h.makeDirectories path s)
  create : ∀ path {t s}, R t s → Matches R (k.create path t) (h.create path s)
  write : ∀ path bytes {t s}, R t s → Matches R (k.write path bytes t) (h.write path bytes s)
  sync : ∀ path {t s}, R t s → Matches R (k.sync path t) (h.sync path s)
  rename : ∀ source target {t s}, R t s →
    Matches R (k.rename source target t) (h.rename source target s)
  say : ∀ line {t s}, R t s → R (k.say line t) (h.say line s)

namespace Host.Simulates

variable {k : Host τ} {h : Host σ} {R : τ → σ → Prop} {t : τ} {s : σ}

theorem replaceFile (hh : k.Simulates h R) (temporary path text : String) (hR : R t s) :
    Matches R (k.replaceFile temporary path text t) (h.replaceFile temporary path text s) :=
  (hh.create temporary hR).andThen fun hR => (hh.write temporary _ hR).andThen fun hR =>
    (hh.sync temporary hR).andThen fun hR => hh.rename temporary path hR

theorem persist (hh : k.Simulates h R) (dir : String) (c : RunConfig) (timeline : Timeline)
    (log : String) (hR : R t s) :
    Matches R (Artifacts.persist k dir c timeline log t)
      (Artifacts.persist h dir c timeline log s) := by
  have hreplace : ∀ path text {t s}, R t s → Matches R
      (Artifacts.onPath path (k.replaceFile (Artifacts.temporary path) path text t))
      (Artifacts.onPath path (h.replaceFile (Artifacts.temporary path) path text s)) :=
    fun path text _ _ hR => (hh.replaceFile (Artifacts.temporary path) path text hR).onPath path
  unfold Artifacts.persist
  obtain ⟨answer, t₁, s₁, ht, hs, hR₁⟩ := ((hh.makeDirectories dir hR).onPath dir).exists_eq
  simp only [ht, hs]
  cases answer with
  | error e => exact ⟨rfl, hR₁⟩
  | ok _ =>
    obtain ⟨answer, t₂, s₂, ht, hs, hR₂⟩ :=
      (hreplace (Artifacts.within dir c).runLog log hR₁).exists_eq
    simp only [ht, hs]
    cases answer with
    | error e => exact ⟨rfl, hR₂⟩
    | ok _ =>
      obtain ⟨answer, t₃, s₃, ht, hs, hR₃⟩ :=
        (hreplace (Artifacts.within dir c).csv (TimelineCsv.write timeline) hR₂).exists_eq
      simp only [ht, hs]
      cases answer with
      | error e => exact ⟨rfl, hR₃⟩
      | ok _ => exact ⟨rfl, hh.say _ hR₃⟩

end Host.Simulates

namespace Run

structure Simulates (q : Run τ) (r : Run σ) (R : τ → σ → Prop) : Prop where
  config : q.config = r.config
  mode : q.mode = r.mode
  failureLimit : q.failureLimit = r.failureLimit
  render : ∀ request {t s}, R t s →
    Matches R (q.collaborators.render request t) (r.collaborators.render request s)
  call : ∀ profile model {t s}, R t s →
    Matches R (q.collaborators.call profile model t) (r.collaborators.call profile model s)
  parse : ∀ trace {t s}, R t s →
    Matches R (q.collaborators.parse trace t) (r.collaborators.parse trace s)
  keptModel : ∀ model {t s}, R t s →
    q.collaborators.keptModel model t = r.collaborators.keptModel model s
  present : ∀ entries {t s}, R t s → R (q.present entries t) (r.present entries s)
  event : ∀ level message {t s}, R t s →
    R (q.host.event level message t) (r.host.event level message s)

namespace Simulates

variable {q : Run τ} {r : Run σ} {R : τ → σ → Prop} {t : τ} {s : σ}

theorem ofModel (h : q.Simulates r R) (mode : Mode) (model : Model) (hR : R t s) :
    Matches R (Attempt.ofModel q.collaborators mode model t)
      (Attempt.ofModel r.collaborators mode model s) :=
  Matches.ofModel h.call h.parse mode model hR

theorem settle (h : q.Simulates r R) (w : Window) (a : Attempt) (st : RunState) (hR : R t s) :
    Matches R (q.settle w a st t) (r.settle w a st s) := by
  refine ⟨rfl, ?_⟩
  simp only [Run.settle]
  split
  · exact h.present _ hR
  · exact h.present _ (h.event _ _ hR)

theorem visit (h : q.Simulates r R) (w : Window) (st : RunState) (hR : R t s) :
    (q.visit w st t).1 = (r.visit w st s).1 ∧ Matches R (q.visit w st t).2 (r.visit w st s).2 := by
  obtain ⟨answer, t', s', ht, hs, hR'⟩ := (h.render (.ofWindow r.config w) hR).exists_eq
  simp only [Run.visit, h.config, h.mode, ht, hs]
  cases answer with
  | error e => exact ⟨rfl, h.settle w _ st hR'⟩
  | ok text =>
    obtain ⟨a, t₁, s₁, ht₁, hs₁, hR₁⟩ :=
      (h.ofModel r.mode (.text (RenderRequest.ofWindow r.config w).label text) hR').exists_eq
    obtain ⟨st', t₂, s₂, ht₂, hs₂, hR₂⟩ := (h.settle w a st hR₁).exists_eq
    simp only [ht₁, hs₁, ht₂, hs₂, h.keptModel _ hR₂]
    exact ⟨trivial, rfl, h.present _ hR₂⟩

theorem stopReason?_eq (h : q.Simulates r R) (st : RunState) :
    q.stopReason? st = r.stopReason? st := by
  rw [stopReason?, stopReason?, h.mode, h.failureLimit, h.config]

theorem attempt (h : q.Simulates r R) (w : Window) (st : RunState) (hR : R t s) :
    Matches R (q.attempt w st t) (r.attempt w st s) := by
  obtain ⟨hanswer, hvisit⟩ := h.visit w st hR
  obtain ⟨answer, t', s', ht, hs, hR'⟩ := (h.render (.ofWindow r.config w) hR).exists_eq
  rw [← h.config] at ht
  cases answer with
  | ok text =>
    rw [attempt_of_render_ok ht, attempt_of_render_ok hs]
    exact ⟨congrArg Except.ok hvisit.1, hvisit.2⟩
  | error e =>
    by_cases hfirst : st.attempted = 0
    · rw [attempt_of_render_error ht hfirst, attempt_of_render_error hs hfirst]
      exact ⟨rfl, hR'⟩
    · rw [attempt_eq_visit (Or.inl hfirst), attempt_eq_visit (Or.inl hfirst)]
      exact ⟨congrArg Except.ok hvisit.1, hvisit.2⟩

theorem follow (h : q.Simulates r R) (ws : List Window) (st : RunState) (hR : R t s) :
    Matches R (q.follow ws st t) (r.follow ws st s) := by
  induction ws generalizing st t s with
  | nil => exact ⟨rfl, hR⟩
  | cons w ws ih =>
    obtain ⟨answer, t', s', ht, hs, hR'⟩ := (h.attempt w st hR).exists_eq
    rw [Run.follow, Run.follow, ht, hs]
    cases answer with
    | error e => exact ⟨rfl, hR'⟩
    | ok st' =>
      dsimp only
      rw [h.stopReason?_eq]
      cases r.stopReason? st' with
      | some reason => exact ⟨rfl, h.present _ hR'⟩
      | none => exact ih st' hR'

theorem conclude (h : q.Simulates r R) (hdir : q.resultDir = r.resultDir)
    (hhost : q.host.Simulates r.host R) (elapsed : Elapsed) (reason : StopReason) (st : RunState)
    (hR : R t s) :
    Matches R (q.conclude elapsed reason st t) (r.conclude elapsed reason st s) := by
  have hclosing : q.closingEntries reason elapsed = r.closingEntries reason elapsed := by
    rw [closingEntries, closingEntries, h.mode]
  have hpersist := hhost.persist r.resultDir r.config st.timeline
    (RunLog.contents (st.entries ++ r.closingEntries reason elapsed))
      (h.present (r.closingEntries reason elapsed) hR)
  obtain ⟨answer, t', s', ht, hs, hR'⟩ := hpersist.exists_eq
  simp only [Run.conclude, hclosing, hdir, h.config, h.mode, ht, hs]
  cases answer <;> exact ⟨rfl, hR'⟩

section Start

variable (h : q.Simulates r R) (hname : q.collaborators.toolName = r.collaborators.toolName)
  (havailable : Matches R (q.collaborators.ensureAvailable t) (r.collaborators.ensureAvailable s))

include h

theorem isUnboundedCheck_iff : q.IsUnboundedCheck ↔ r.IsUnboundedCheck := by
  rw [IsUnboundedCheck, IsUnboundedCheck, h.mode, h.config]

include hname havailable

theorem follow_opened : Matches R (q.follow q.planner.windows q.opening (q.opened t))
    (r.follow r.planner.windows r.opening (r.opened s)) := by
  have hplanner : q.planner = r.planner := by rw [planner, planner, h.config]
  have hentries : q.openingEntries = r.openingEntries := by
    rw [openingEntries, openingEntries, h.config, h.mode, hname]
  have hopened : R (q.opened t) (r.opened s) := by
    rw [opened, opened, hentries]
    exact h.present r.openingEntries havailable.2
  rw [hplanner, opening, opening, hentries]
  exact h.follow r.planner.windows _ hopened

theorem execute (hdir : q.resultDir = r.resultDir) (hhost : q.host.Simulates r.host R)
    (elapsed : Elapsed) (hR : R t s) :
    Matches R (q.execute elapsed t) (r.execute elapsed s) := by
  by_cases hbounded : r.IsUnboundedCheck
  · rw [execute_of_unboundedCheck hbounded,
      execute_of_unboundedCheck (h.isUnboundedCheck_iff.mpr hbounded)]
    exact ⟨rfl, hR⟩
  have hboundedq : ¬ q.IsUnboundedCheck := fun hq => hbounded (h.isUnboundedCheck_iff.mp hq)
  have hfollow := h.follow_opened hname havailable
  obtain ⟨answer, t₁, s₁, ht, hs, hR₁⟩ := havailable.exists_eq
  cases answer with
  | error e =>
    rw [execute_of_unavailable hbounded hs, execute_of_unavailable hboundedq ht]
    exact ⟨rfl, hR₁⟩
  | ok _ =>
    rw [execute_eq_follow hbounded (congrArg Prod.fst hs),
      execute_eq_follow hboundedq (congrArg Prod.fst ht)]
    obtain ⟨answer, t₂, s₂, ht', hs', hR₂⟩ := hfollow.exists_eq
    rw [ht', hs']
    cases answer with
    | error e => exact ⟨rfl, hR₂⟩
    | ok last => exact h.conclude hdir hhost elapsed last.1 last.2 hR₂

end Start

end Simulates

end Run

end NoiseTimeline
