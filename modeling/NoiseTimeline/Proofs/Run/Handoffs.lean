import NoiseTimeline.Proofs.Checker.Handoff
import NoiseTimeline.Proofs.Run.Chronicle
import NoiseTimeline.Proofs.Run.Failure

/-! The work directory over a run. Each window writes and settles its own handoff file,
so at the end there is one for each window on which the tool has reported an error. -/

namespace NoiseTimeline

variable {σ : Type} {tree : σ → FileTree} {cwd : σ → Location}

/-- A model that a run has rendered, with the state in which it goes to the checker. -/
structure Rendered (σ : Type) where
  window : Window
  text : String
  state : σ

def Mode.profile : Mode → Profile
  | .check => .check
  | .simulate => .simulate

theorem Attempt.undisturbed_ofModel {c : Collaborators σ} {dir : String}
    (hparses : ∀ trace s, Undisturbed tree cwd dir s (c.parse trace s).2) (mode : Mode)
    (model : Model) (s : σ) :
    Undisturbed tree cwd dir (c.call mode.profile model s).2 (ofModel c mode model s).2 := by
  cases mode with
  | check =>
    rw [ofModel, Mode.profile]
    rcases c.call .check model s with ⟨answer, s'⟩
    cases answer <;> exact .refl s'
  | simulate =>
    rw [ofModel, Mode.profile]
    rcases c.call .simulate model s with ⟨answer, s'⟩
    cases answer with
    | error e => exact .refl s'
    | ok trace =>
      have hparse := hparses trace s'
      dsimp only
      rcases hanswer : c.parse trace s' with ⟨answer, s''⟩
      rw [hanswer] at hparse
      cases answer <;> exact hparse

namespace Run

/-- The tool judges the models of the run, and neither it nor what renders models and reads traces
touches the work directory. -/
structure Employs (r : Run σ) (tool : ModestTool) (tree : σ → FileTree)
    (cwd : σ → Location) : Prop where
  collaborators : ∃ template render parse,
    r.collaborators = { tool.collaborators r.host template with render := render, parse := parse }
  renders : ∀ request s, Undisturbed tree cwd tool.workDir s (r.collaborators.render request s).2
  parses : ∀ trace s, Undisturbed tree cwd tool.workDir s (r.collaborators.parse trace s).2
  executes : ∀ program arguments s,
    Undisturbed tree cwd tool.workDir s (r.host.execute program arguments s).2

def rendered? (r : Run σ) (w : Window) (s : σ) : Option (Rendered σ) :=
  match r.collaborators.render (.ofWindow r.config w) s with
  | (.error _, _) => none
  | (.ok text, s) => some ⟨w, text, s⟩

/-- For each of the windows, visited one after the other, the model if it was rendered. -/
def rendered (r : Run σ) : List Window → RunState → σ → List (Option (Rendered σ))
  | [], _, _ => []
  | w :: ws, st, s => r.rendered? w s :: rendered r ws (r.visit w st s).2.1 (r.visit w st s).2.2

/-- The tool could be started on the model and has reported an error. -/
def keeps (r : Run σ) (tool : ModestTool) (m : Rendered σ) : Bool :=
  tool.keeps r.host r.mode.profile
    (.text (RenderRequest.ofWindow r.config m.window).label m.text) m.state

def filesSucceed (r : Run σ) (tool : ModestTool) (m : Rendered σ) : Bool :=
  tool.filesSucceed r.host r.mode.profile
    (.text (RenderRequest.ofWindow r.config m.window).label m.text) m.state

def handoffPath (r : Run σ) (tool : ModestTool) (w : Window) : String :=
  tool.handoffPath (RenderRequest.ofWindow r.config w).label

variable {r : Run σ} {tool : ModestTool} {w : Window} {ws : List Window} {st : RunState} {s s' : σ}
  {m : Rendered σ} {dir : String}

theorem window_of_rendered? (h : r.rendered? w s = some m) : m.window = w := by
  rw [rendered?] at h
  split at h
  · cases h
  · cases h
    rfl

theorem window_of_mem_rendered (h : some m ∈ r.rendered ws st s) : m.window ∈ ws := by
  induction ws generalizing st s with
  | nil => cases h
  | cons w ws ih =>
    rcases List.mem_cons.mp h with h | h
    · rw [window_of_rendered? h.symm]
      exact List.mem_cons_self
    · exact List.mem_cons_of_mem w (ih h)

theorem undisturbed_present (hf : r.host.Confined tree cwd) (entries : List LogEntry) (s : σ) :
    Undisturbed tree cwd dir s (r.present entries s) := by
  rw [present]
  induction entries.flatMap (r.logConfig.shown r.echo) generalizing s with
  | nil => exact .refl s
  | cons line lines ih => exact (hf.undisturbed_say line s).trans (ih (r.host.say line s))

theorem undisturbed_settle (hf : r.host.Confined tree cwd) (w : Window) (a : Attempt)
    (st : RunState) (s : σ) :
    Undisturbed tree cwd dir s (r.settle w a st s).2 := by
  rw [settle]
  dsimp only
  split
  · exact undisturbed_present hf _ s
  · exact (hf.undisturbed_say _ s).trans (undisturbed_present hf _ _)

section Visit

variable (hf : r.host.Confined tree cwd) (he : r.Employs tool tree cwd)

include hf he

theorem undisturbed_visit (st : RunState) (h : r.rendered? w s = none) :
    Undisturbed tree cwd tool.workDir s (r.visit w st s).2.2 := by
  have hrender := he.renders (.ofWindow r.config w) s
  rw [rendered?] at h
  rcases hanswer : r.collaborators.render (.ofWindow r.config w) s with ⟨answer, s₁⟩
  rw [hanswer] at h hrender
  cases answer with
  | ok text => cases h
  | error e =>
    rw [visit_of_render_error hanswer]
    exact hrender.trans (undisturbed_settle hf w _ st s₁)

theorem visit_leaves (st : RunState) (h : r.rendered? w s = some m)
    (hfiles : r.filesSucceed tool m = true) :
    Spares tree cwd tool.workDir (· = [ModestTool.handoffName r.config w]) s (r.visit w st s).2.2 ∧
      ModestTool.Leaves (tree (r.visit w st s).2.2) (cwd (r.visit w st s).2.2) tool.workDir
        (ModestTool.handoffName r.config w)
        (if r.keeps tool m then some m.text else none) ∧
      r.kept? w st s = if r.keeps tool m then some (r.handoffPath tool w) else none := by
  have hrender := he.renders (.ofWindow r.config w) s
  rw [rendered?] at h
  rcases hanswer : r.collaborators.render (.ofWindow r.config w) s with ⟨answer, s₁⟩
  rw [hanswer] at h hrender
  cases answer with
  | error e => cases h
  | ok text =>
    cases h
    have hname := ModestTool.isName_handoffName r.config w
    obtain ⟨template, render, parse, hc⟩ := he.collaborators
    have hcall : r.collaborators.call = (tool.collaborators r.host template).call := by rw [hc]
    have hkept : r.collaborators.keptModel = tool.keptModel r.host.toDisk := by rw [hc]; rfl
    let model := Model.text (RenderRequest.ofWindow r.config w).label text
    let a := Attempt.ofModel r.collaborators r.mode model s₁
    let settled := (r.settle w a.1 st a.2).2
    have hvisit : (r.visit w st s).2.2 = r.present (keptEntries (r.kept? w st s)) settled := by
      rw [visit, kept?, hanswer]
    have hmodel : r.kept? w st s = tool.keptModel r.host.toDisk model settled := by
      rw [kept?, hanswer, hkept]
    obtain ⟨hspares, hstands⟩ :=
      ModestTool.invoke_stands hf (tool.handoffPath_label r.config w) hname he.executes hfiles
    have hsettled : Undisturbed tree cwd tool.workDir (tool.invoke r.host r.mode.profile model s₁).2
        settled := by
      refine Undisturbed.trans ?_
        ((Attempt.undisturbed_ofModel he.parses _ _ _).trans (undisturbed_settle hf w a.1 st a.2))
      rw [hcall]
      exact ModestTool.undisturbed_call hf tool template _ _ _
    have hpresented : Undisturbed tree cwd tool.workDir settled (r.visit w st s).2.2 := by
      rw [hvisit]
      exact undisturbed_present hf _ settled
    have hstands := hstands.undisturbed hname hsettled
    refine ⟨hrender.spares.trans (hspares.trans (hsettled.trans hpresented).spares),
      (hstands.undisturbed hname hpresented).leaves, ?_⟩
    rw [hmodel, ModestTool.keptModel, hf.fileExists, tool.handoffPath_label,
      hstands.exists?_eq hname, handoffPath, tool.handoffPath_label]
    cases hkeeps : tool.keeps r.host r.mode.profile model s₁ with
    | true => simp [keeps, hkeeps, model]
    | false => simp [keeps, hkeeps, model]

/-- Places that belong to models which were rendered. -/
def IsHandoff (r : Run σ) (ms : List (Option (Rendered σ))) (below : Location) : Prop :=
  ∃ m, some m ∈ ms ∧ below = [ModestTool.handoffName r.config m.window]

/-- No window finds its file changed by a window after it, since their files have other names. -/
theorem course_leaves (ws : List Window) (st : RunState) (s : σ) (hdistinct : ws.Nodup)
    (hfiles : ∀ m, some m ∈ r.rendered ws st s → r.filesSucceed tool m = true) :
    Spares tree cwd tool.workDir (r.IsHandoff (r.rendered ws st s)) s (r.course ws st s).2.2 ∧
      (∀ m, some m ∈ r.rendered ws st s →
        ModestTool.Leaves (tree (r.course ws st s).2.2) (cwd (r.course ws st s).2.2)
          tool.workDir (ModestTool.handoffName r.config m.window)
          (if r.keeps tool m then some m.text else none)) ∧
      r.kepts ws st s = (r.rendered ws st s).map fun rendered =>
        rendered.bind fun m =>
          if r.keeps tool m then some (r.handoffPath tool m.window) else none := by
  induction ws generalizing st s with
  | nil => exact ⟨(Undisturbed.refl s).spares, fun m h => (nomatch h), rfl⟩
  | cons w ws ih =>
    obtain ⟨hfresh, hrest⟩ := List.nodup_cons.mp hdistinct
    obtain ⟨hspares, hleaves, hkepts⟩ := ih (r.visit w st s).2.1 (r.visit w st s).2.2 hrest
      fun m hm => hfiles m (List.mem_cons_of_mem _ hm)
    have hothers : Spares tree cwd tool.workDir (r.IsHandoff (r.rendered (w :: ws) st s))
        (r.visit w st s).2.2 (r.course (w :: ws) st s).2.2 :=
      hspares.mono fun below ⟨m, hm, hbelow⟩ => ⟨m, List.mem_cons_of_mem _ hm, hbelow⟩
    rw [kepts, rendered, List.map_cons, hkepts]
    cases hm : r.rendered? w s with
    | none =>
      have hvisit := undisturbed_visit hf he st hm
      have hkept : r.kept? w st s = none := by
        rw [rendered?] at hm
        split at hm
        · rename_i hrender
          exact kept?_of_render_error hrender
        · cases hm
      rw [rendered, hm] at hothers
      refine ⟨hvisit.spares.trans hothers, ?_, by rw [hkept]; rfl⟩
      intro m hmem
      rcases List.mem_cons.mp hmem with h | h
      · cases h
      · exact hleaves m h
    | some m₀ =>
      obtain ⟨hvisit, hfile, hkept⟩ :=
        visit_leaves hf he st hm (hfiles m₀ (by rw [rendered, hm]; exact List.mem_cons_self))
      obtain rfl := window_of_rendered? hm
      rw [rendered, hm] at hothers
      refine ⟨(hvisit.mono ?_).trans hothers, ?_, by rw [hkept]; rfl⟩
      · rintro below rfl
        exact ⟨m₀, List.mem_cons_self, rfl⟩
      · intro m hmem
        rcases List.mem_cons.mp hmem with h | h
        · cases h
          refine hfile.spares (ModestTool.isName_handoffName _ _) hspares ?_
          rintro ⟨m', hm', hname⟩
          have hsame := ModestTool.handoffName_inj (List.singleton_inj.mp hname)
          exact hfresh (hsame ▸ window_of_mem_rendered hm')
        · exact hleaves m h

end Visit

theorem nodup_windows (hc : r.config.IsValid) : r.planner.windows.Nodup := by
  refine (windows_ascending hc).imp_of_mem fun {v w} hv _ hlt => ?_
  rintro rfl
  exact absurd hlt (Nat.not_lt_of_le (mem_windows hc hv).1)

variable {elapsed : Elapsed} {answer : Except RunError RunOutcome}

theorem Starts.requested_eq (hc : r.config.IsValid) (h : r.Starts s) :
    r.requested elapsed s = r.planner.windows.take (r.conducted s).1.2.attempted := by
  have hcj : r.journaled.config.IsValid := hc
  have hj : r.journaled.Starts ⟨s, []⟩ := h.journaled []
  obtain ⟨n, -, hattempted, hquestions⟩ := r.conducted_questions elapsed s
  have hsame : (r.journaled.conducted ⟨s, []⟩).1 = (r.conducted s).1 := by
    have hstart : Journaled.Keeps (fun _ => True) (⟨s, []⟩ : Journaled σ) s := ⟨rfl, trivial⟩
    have hfollow :=
      (r.journaled_simulates fun _ _ _ => trivial).follow_opened rfl
        (hstart.enter fun _ _ => trivial)
    rw [follow_eq_conduct (h.opens hc), follow_eq_conduct (hj.opens hcj)] at hfollow
    exact Except.ok.inj hfollow.1
  rw [requested, hj.execute_eq hcj, ← hsame, hattempted]
  exact windows_of_questions hquestions

theorem FailsEarly.requested_eq {e : RunError} {deeds : List Deed} (hc : r.config.IsValid)
    (h : r.FailsEarly s e deeds s') (elapsed : Elapsed) : r.requested elapsed s = [] ∨
    r.requested elapsed s = [r.firstWindow] ∧ r.rendered? r.firstWindow (r.opened s) = none := by
  have hcj : r.journaled.config.IsValid := hc
  have hj : r.journaled.FailsEarly ⟨s, []⟩ e deeds ⟨s', [] ++ deeds⟩ := h.journaled []
  rw [requested, hj.execute_eq hcj]
  cases h with
  | unboundedCheck _ => exact Or.inl rfl
  | precondition _ _ => exact Or.inl rfl
  | render _ _ hrender =>
    rw [firstRendering] at hrender
    rw [rendered?, hrender]
    exact Or.inr ⟨rfl, rfl⟩

theorem nodup_requested (hc : r.config.IsValid) (elapsed : Elapsed) (s : σ) :
    (r.requested elapsed s).Nodup := by
  rcases r.starts_or_failsEarly s with hstarts | ⟨e, deeds, s', hearly⟩
  · rw [hstarts.requested_eq hc]
    exact (nodup_windows hc).sublist (List.take_sublist _ _)
  · rcases hearly.requested_eq hc elapsed with hnone | ⟨hfirst, -⟩
    · rw [hnone]
      exact List.nodup_nil
    · rw [hfirst]
      exact List.nodup_singleton _

theorem Starts.execute_snd (hc : r.config.IsValid) (h : r.Starts s) :
    (r.execute elapsed s).2 = (r.storing elapsed s).2 := by
  rcases hstoring : r.storing elapsed s with ⟨answer, s'⟩
  cases answer with
  | error e => rw [h.execute_of_store_error hc hstoring]
  | ok a => rw [h.execute_of_stored hc hstoring]

section Ending

variable (hf : r.host.Confined tree cwd)

include hf

theorem spares_storing (elapsed : Elapsed) (dir : String) (s : σ) :
    let last := (r.after (r.conducted s).1.2.attempted s).2
    Spares tree cwd dir (fun below =>
      (Path.target (cwd last) dir ++ below).dropLast = Path.target (cwd last) r.resultDir)
      last (r.storing elapsed s).2 := by
  obtain ⟨n, -, reason, hconducted, hattempted⟩ := r.conducted_eq_after s
  rw [hattempted]
  have hshown : Undisturbed tree cwd dir (r.after n s).2
      (r.present (r.closingEntries (r.conducted s).1.1 elapsed) (r.conducted s).2) := by
    refine Undisturbed.trans ?_ (undisturbed_present hf _ _)
    rw [hconducted]
    exact undisturbed_present hf _ _
  refine hshown.spares.trans (hf.spares_persist r.config _ _ fun below hbelow => ?_)
  rwa [hshown.here] at hbelow

variable (he : r.Employs tool tree cwd)

include he

theorem undisturbed_ensureAvailable :
    Undisturbed tree cwd tool.workDir s (r.collaborators.ensureAvailable s).2 := by
  obtain ⟨template, render, parse, hc⟩ := he.collaborators
  rw [hc]
  exact ModestTool.undisturbed_ensureAvailable hf tool s

theorem undisturbed_opened : Undisturbed tree cwd tool.workDir s (r.opened s) :=
  (undisturbed_ensureAvailable hf he).trans (undisturbed_present hf _ _)

theorem FailsEarly.undisturbed {e : RunError} {deeds : List Deed} (h : r.FailsEarly s e deeds s') :
    Undisturbed tree cwd tool.workDir s s' := by
  cases h with
  | unboundedCheck _ => exact .refl s
  | precondition _ h =>
    have hasked := undisturbed_ensureAvailable hf he (s := s)
    rwa [h] at hasked
  | render _ _ h =>
    have hrender := he.renders (.ofWindow r.config r.firstWindow) (r.opened s)
    rw [← firstRendering, h] at hrender
    exact (undisturbed_opened hf he).trans hrender

/-- The handoff files at the end of a run, however it ends. -/
theorem execute_leaves (hc : r.config.IsValid)
    (hdir : Path.target (cwd s) r.resultDir ≠ Path.target (cwd s) tool.workDir)
    (hfiles : ∀ m, some m ∈ r.rendered (r.requested elapsed s) r.opening (r.opened s) →
      r.filesSucceed tool m = true) :
    Spares tree cwd tool.workDir
      (fun below => r.IsHandoff (r.rendered (r.requested elapsed s) r.opening (r.opened s)) below ∨
        (Path.target (cwd s) tool.workDir ++ below).dropLast = Path.target (cwd s) r.resultDir) s
        (r.execute elapsed s).2 ∧
      ∀ m, some m ∈ r.rendered (r.requested elapsed s) r.opening (r.opened s) →
        ModestTool.Leaves (tree (r.execute elapsed s).2) (cwd (r.execute elapsed s).2) tool.workDir
          (ModestTool.handoffName r.config m.window)
          (if r.keeps tool m then some m.text else none) := by
  rcases r.starts_or_failsEarly s with hstarts | ⟨e, deeds, s', hearly⟩
  · rw [hstarts.requested_eq hc] at hfiles ⊢
    rw [hstarts.execute_snd hc]
    obtain ⟨hcourse, hleaves, -⟩ :=
      course_leaves hf he _ _ _ ((nodup_windows hc).sublist (List.take_sublist _ _)) hfiles
    have hopened := undisturbed_opened hf he (s := s)
    have hhere : cwd (r.after (r.conducted s).1.2.attempted s).2 = cwd s :=
      hcourse.here.trans hopened.here
    have hstoring := spares_storing hf elapsed tool.workDir s
    dsimp only at hstoring
    rw [hhere] at hstoring
    refine ⟨(hopened.spares.trans (hcourse.mono fun _ => Or.inl)).trans
      (hstoring.mono fun _ => Or.inr), ?_⟩
    intro m hm
    refine (hleaves m hm).spares (ModestTool.isName_handoffName _ _) hstoring ?_
    rw [List.dropLast_concat]
    exact hdir.symm
  · rw [hearly.execute_eq hc]
    refine ⟨(hearly.undisturbed hf he).spares, fun m hm => ?_⟩
    rcases hearly.requested_eq hc elapsed with hnone | ⟨hfirst, hnone⟩
    · rw [hnone] at hm
      cases hm
    · rw [hfirst, rendered, rendered, hnone] at hm
      cases List.mem_singleton.mp hm

end Ending

/-- Windows have handoff files of their own in the work directory. At the end of a run there are
those of the models on which the tool could be started and has reported an error, with the texts of
these models, and the log names just these. All other files in the work directory or below it are as
they were, apart from the results. -/
theorem handoffs_hold_reported_models (hf : r.host.Confined tree cwd) (he : r.Employs tool tree cwd)
    (hc : r.config.IsValid)
    (hdir : Path.target (cwd s) r.resultDir ≠ Path.target (cwd s) tool.workDir)
    (hfiles : ∀ m, some m ∈ r.rendered (r.requested elapsed s) r.opening (r.opened s) →
      r.filesSucceed tool m = true)
    (h : r.execute elapsed s = (answer, s')) :
    let windows := r.requested elapsed s
    let rendered := r.rendered windows r.opening (r.opened s)
    (windows.map (r.handoffPath tool)).Nodup ∧
    (∀ w, r.handoffPath tool w = Path.join tool.workDir (ModestTool.handoffName r.config w) ∧
      Path.IsName (ModestTool.handoffName r.config w)) ∧
    (∀ m, some m ∈ rendered → ∀ bytes,
      (tree s').read (cwd s') (r.handoffPath tool m.window) = .ok bytes ↔
        r.keeps tool m = true ∧ bytes = m.text.toUTF8) ∧
    (∀ below, ¬ r.IsHandoff rendered below →
      (Path.target (cwd s) tool.workDir ++ below).dropLast ≠ Path.target (cwd s) r.resultDir →
      (tree s').fileAt? (Path.target (cwd s) tool.workDir ++ below) =
        (tree s).fileAt? (Path.target (cwd s) tool.workDir ++ below)) ∧
    ∀ o, answer = .ok o → ∃ body,
      LogBody r.config [] windows (r.inquiries windows r.opening (r.opened s))
        (rendered.map fun model => model.bind fun m =>
          if r.keeps tool m then some (r.handoffPath tool m.window) else none) body ∧
      (tree s').read (cwd s') o.artifacts.runLog =
        .ok (r.config.header r.mode ++ body ++ givenUpLine o.stopReason ++
          "\nTotal elapsed time: " ++ elapsed.text ++ "\n").toUTF8 := by
  obtain ⟨hspares, hleaves⟩ := execute_leaves hf he hc hdir hfiles
  rw [h] at hspares hleaves
  dsimp only at hspares hleaves ⊢
  have hpath : ∀ w, r.handoffPath tool w =
      Path.join tool.workDir (ModestTool.handoffName r.config w) :=
    tool.handoffPath_label r.config
  refine ⟨?_, fun w => ⟨hpath w, ModestTool.isName_handoffName _ w⟩, ?_, ?_, ?_⟩
  · refine (nodup_requested hc elapsed s).map fun v w hvw => ?_
    rw [hpath, hpath] at hvw
    exact ModestTool.handoffName_inj
      (Path.join_inj (ModestTool.isName_handoffName _ v) (ModestTool.isName_handoffName _ w) hvw)
  · intro m hm bytes
    rw [hpath, (hleaves m hm).read_iff (ModestTool.isName_handoffName _ _)]
    cases r.keeps tool m with
    | true => simp [eq_comm]
    | false => simp
  · intro below hbelow hresult
    exact hspares.files below (not_or.mpr ⟨hbelow, hresult⟩)
  · rintro o rfl
    obtain ⟨body, hbody, hlog⟩ := exists_logBody h
    have hrequested := (requested_of_execute_ok h).1
    obtain ⟨-, -, hkepts⟩ := course_leaves hf he _ _ _ (nodup_requested hc elapsed s) hfiles
    rw [← hrequested, hkepts] at hbody
    refine ⟨body, hbody, ?_⟩
    rw [← hlog]
    exact (read_execute hf.toHasFiles h).2

/-- A machine whose tool rejects one model and cannot be started on any other. -/
def fussyHost : Host Machine :=
  { Machine.host with
    findExecutable := fun _ _ => some "/modest"
    execute := fun _ arguments m =>
      (match m.tree.readText m.cwd (arguments.getD 1 "") with
        | .ok "(0,49)" => .ok ⟨"error: type".toUTF8, ByteArray.empty, some 1⟩
        | _ => .error (.system SystemError.noSuchEntry), m) }

def fussyTool : ModestTool := ⟨"modest", "w"⟩

def fussyRun : Run Machine where
  config := { size := 2, property := .irDrop, horizon := some 99 }
  mode := .simulate
  resultDir := "r"
  collaborators := { fussyTool.collaborators fussyHost "" with
    render := fun request s => (.ok request.window.text, s)
    parse := fun trace s => (Trace.parse trace, s) }
  host := fussyHost

theorem isValid_fussyRun : fussyRun.config.IsValid := ⟨rfl, by decide, by decide, by decide⟩

theorem fussyRun_requested : fussyRun.requested ⟨0, 0⟩ {} = [⟨0, 49⟩, ⟨50, 99⟩] := by
  have hstarts : fussyRun.Starts {} := ⟨not_isUnboundedCheck rfl, rfl, _, rfl⟩
  rw [hstarts.requested_eq isValid_fussyRun]
  decide +kernel

def rejectedModel : Rendered Machine := ⟨⟨0, 49⟩, Window.text ⟨0, 49⟩, fussyRun.opened {}⟩

def unseenModel : Rendered Machine :=
  ⟨⟨50, 99⟩, Window.text ⟨50, 99⟩,
    (fussyRun.visit ⟨0, 49⟩ fussyRun.opening (fussyRun.opened {})).2.2⟩

theorem fussyRun_models :
    fussyRun.filesSucceed fussyTool rejectedModel = true ∧
      fussyRun.filesSucceed fussyTool unseenModel = true ∧
      fussyRun.keeps fussyTool rejectedModel = true ∧
      fussyRun.keeps fussyTool unseenModel = false := by
  decide +kernel

theorem fussyRun_handoffs :
    let m := (fussyRun.execute ⟨0, 0⟩ {}).2
    m.tree.read m.cwd (fussyRun.handoffPath fussyTool ⟨0, 49⟩) = .ok (Window.text ⟨0, 49⟩).toUTF8 ∧
      ∀ bytes, m.tree.read m.cwd (fussyRun.handoffPath fussyTool ⟨50, 99⟩) ≠ .ok bytes := by
  have hconfined : fussyRun.host.Confined Machine.tree Machine.cwd := { Machine.confined_host with }
  have hemploys : fussyRun.Employs fussyTool Machine.tree Machine.cwd :=
    ⟨⟨_, _, _, rfl⟩, fun _ s => .refl s, fun _ s => .refl s, fun _ _ s => .refl s⟩
  have hdir : Path.target [] "r" ≠ Path.target [] "w" := by
    decide +kernel
  have hrendered : fussyRun.rendered (fussyRun.requested ⟨0, 0⟩ {}) fussyRun.opening
      (fussyRun.opened {}) =
      [some rejectedModel, some unseenModel] := by
    rw [fussyRun_requested]
    rfl
  obtain ⟨hrejected, hunseen, hkept, hgone⟩ := fussyRun_models
  have hfiles : ∀ m, some m ∈
      fussyRun.rendered (fussyRun.requested ⟨0, 0⟩ {}) fussyRun.opening (fussyRun.opened {}) →
      fussyRun.filesSucceed fussyTool m = true := by
    intro m hm
    rw [hrendered, List.mem_pair, Option.some.injEq, Option.some.injEq] at hm
    rcases hm with rfl | rfl
    · exact hrejected
    · exact hunseen
  obtain ⟨-, -, hread, -⟩ :=
    handoffs_hold_reported_models hconfined hemploys isValid_fussyRun hdir hfiles Prod.mk.eta.symm
  rw [hrendered] at hread
  refine ⟨(hread rejectedModel List.mem_cons_self _).mpr ⟨hkept, rfl⟩, fun bytes hbytes => ?_⟩
  have hkeeps := ((hread unseenModel (List.mem_cons_of_mem _ List.mem_cons_self) bytes).mp hbytes).1
  rw [hgone] at hkeeps
  exact Bool.false_ne_true hkeeps

end Run

end NoiseTimeline
