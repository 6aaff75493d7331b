import NoiseTimeline.Proofs.Run.Simulation

/-! Runs that keep a journal of what they ask their collaborators and of what they do
to files. Apart from the journal such a run is the run itself. -/

namespace NoiseTimeline

/-- A question to a collaborator with its answer, or an operation of a run on the files of its
host. -/
inductive Deed where
  | asked (answer : Except CheckerError Unit)
  | rendered (request : RenderRequest) (answer : Except RenderError String)
  | called (profile : Profile) (model : Model) (answer : Except CheckerError String)
  | parsed (trace : String) (answer : Except TraceError (List Sample))
  | madeDirectories (path : String)
  | created (path : String)
  | wrote (path : String) (bytes : ByteArray)
  | synced (path : String)
  | renamed (source target : String)
  | removed (path : String)
  | executed (tool : String) (arguments : List String)

/-- A collaborator was asked; all else is done to files. -/
def Deed.isQuestion : Deed → Bool
  | .asked _ | .rendered _ _ | .called _ _ _ | .parsed _ _ => true
  | _ => false

def Deed.rendering? : Deed → Option (RenderRequest × Except RenderError String)
  | .rendered request answer => some (request, answer)
  | _ => none

/-- A state with the deeds so far. -/
structure Journaled (σ : Type) where
  state : σ
  deeds : List Deed

namespace Journaled

variable {σ α : Type}

/-- Takes a step and enters it. -/
def enter (deed : α → Deed) (step : σ → α × σ) (j : Journaled σ) : α × Journaled σ :=
  ((step j.state).1, ⟨(step j.state).2, j.deeds ++ [deed (step j.state).1]⟩)

/-- The models that were asked for. -/
def renderings (j : Journaled σ) : List (RenderRequest × Except RenderError String) :=
  j.deeds.filterMap Deed.rendering?

/-- What the collaborators were asked, with their answers. -/
def questions (j : Journaled σ) : List Deed := j.deeds.filter Deed.isQuestion

theorem renderings_eq (j : Journaled σ) : j.renderings = j.questions.filterMap Deed.rendering? := by
  have hquestion : ∀ d : Deed, (if d.isQuestion then d.rendering? else none) = d.rendering? := by
    intro d
    cases d <;> rfl
  simp only [renderings, questions, List.filterMap_filter, hquestion]

/-- The journal is that of the state, and its deeds are as they should be. -/
def Keeps (P : List Deed → Prop) (j : Journaled σ) (s : σ) : Prop := j.state = s ∧ P j.deeds

theorem Keeps.enter {P : List Deed → Prop} {deed : α → Deed} {step : σ → α × σ} {j : Journaled σ}
    {s : σ} (h : j.Keeps P s) (hdeed : ∀ a, P j.deeds → P (j.deeds ++ [deed a])) :
    Matches (Keeps P) (enter deed step j) (step s) := by
  obtain ⟨rfl, hP⟩ := h
  exact ⟨rfl, rfl, hdeed _ hP⟩

end Journaled

variable {σ : Type}

def Collaborators.journaled (c : Collaborators σ) : Collaborators (Journaled σ) where
  toolName := c.toolName
  ensureAvailable := Journaled.enter .asked c.ensureAvailable
  render request := Journaled.enter (.rendered request) (c.render request)
  call profile model := Journaled.enter (.called profile model) (c.call profile model)
  keptModel model j := c.keptModel model j.state
  parse trace := Journaled.enter (.parsed trace) (c.parse trace)

def Host.journaled (host : Host σ) : Host (Journaled σ) where
  fileExists path j := host.fileExists path j.state
  isDirectory path j := host.isDirectory path j.state
  readText path j := host.readText path j.state
  list path j := host.list path j.state
  makeDirectories path :=
    Journaled.enter (fun _ => .madeDirectories path) (host.makeDirectories path)
  create path := Journaled.enter (fun _ => .created path) (host.create path)
  write path bytes := Journaled.enter (fun _ => .wrote path bytes) (host.write path bytes)
  sync path := Journaled.enter (fun _ => .synced path) (host.sync path)
  rename source target :=
    Journaled.enter (fun _ => .renamed source target) (host.rename source target)
  remove path := Journaled.enter (fun _ => .removed path) (host.remove path)
  findExecutable tool j := host.findExecutable tool j.state
  execute tool arguments :=
    Journaled.enter (fun _ => .executed tool arguments) (host.execute tool arguments)
  say line j := { j with state := host.say line j.state }

theorem Host.journaled_simulates (host : Host σ) {P : List Deed → Prop}
    (hP : ∀ ds d, d.isQuestion = false → P ds → P (ds ++ [d])) :
    host.journaled.Simulates host (Journaled.Keeps P) where
  makeDirectories _ _ _ hR := hR.enter fun _ => hP _ _ rfl
  create _ _ _ hR := hR.enter fun _ => hP _ _ rfl
  write _ _ _ _ hR := hR.enter fun _ => hP _ _ rfl
  sync _ _ _ hR := hR.enter fun _ => hP _ _ rfl
  rename _ _ _ _ hR := hR.enter fun _ => hP _ _ rfl
  say line _ _ hR := ⟨congrArg (host.say line) hR.1, hR.2⟩

namespace Run

variable {r : Run σ} {j : Journaled σ}

def journaled (r : Run σ) : Run (Journaled σ) :=
  { r with collaborators := r.collaborators.journaled, host := r.host.journaled }

theorem journaled_present (r : Run σ) (entries : List LogEntry) (j : Journaled σ) :
    r.journaled.present entries j = { j with state := r.present entries j.state } := by
  have hsay : ∀ (lines : List ConsoleLine) (j : Journaled σ),
      lines.foldl (fun j line => r.host.journaled.say line j) j =
      { j with state := lines.foldl (fun s line => r.host.say line s) j.state } := by
    intro lines
    induction lines with
    | nil => exact fun _ => rfl
    | cons line lines ih => exact fun j => ih (r.host.journaled.say line j)
  exact hsay _ j

theorem journaled_simulates (r : Run σ) {P : List Deed → Prop} (hP : ∀ ds d, P ds → P (ds ++ [d])) :
    r.journaled.Simulates r (Journaled.Keeps P) where
  config := rfl
  mode := rfl
  failureLimit := rfl
  render _ _ _ hR := hR.enter fun _ => hP _ _
  call _ _ _ _ hR := hR.enter fun _ => hP _ _
  parse _ _ _ hR := hR.enter fun _ => hP _ _
  keptModel model _ _ hR := congrArg (r.collaborators.keptModel model) hR.1
  present entries j s hR := by
    rw [journaled_present]
    exact ⟨congrArg (r.present entries) hR.1, hR.2⟩
  event level message _ _ hR := ⟨congrArg (r.host.event level message) hR.1, hR.2⟩

theorem journaled_execute (r : Run σ) (elapsed : Elapsed) (j : Journaled σ) :
    (r.journaled.execute elapsed j).1 = (r.execute elapsed j.state).1 ∧
      (r.journaled.execute elapsed j).2.state = (r.execute elapsed j.state).2 := by
  have hstart : j.Keeps (fun _ => True) j.state := ⟨rfl, trivial⟩
  obtain ⟨hanswer, hstate, -⟩ :=
    (r.journaled_simulates fun _ _ _ => trivial).execute rfl (hstart.enter fun _ _ => trivial)
      rfl (r.host.journaled_simulates fun _ _ _ _ => trivial) elapsed hstart
  exact ⟨hanswer, hstate⟩

theorem journaled_opened (r : Run σ) (j : Journaled σ) :
    r.journaled.opened j = ⟨r.opened j.state,
      j.deeds ++ [.asked (r.collaborators.ensureAvailable j.state).1]⟩ :=
  journaled_present r r.openingEntries _

theorem journaled_firstRendering (r : Run σ) (j : Journaled σ) :
    r.journaled.firstRendering j =
      ((r.firstRendering j.state).1, ⟨(r.firstRendering j.state).2, j.deeds ++
        [.asked (r.collaborators.ensureAvailable j.state).1,
        .rendered (.ofWindow r.config r.firstWindow) (r.firstRendering j.state).1]⟩) := by
  rw [firstRendering, journaled_opened]
  refine Prod.ext rfl ?_
  exact congrArg (Journaled.mk _) (List.append_assoc j.deeds [_] [_])

theorem Starts.journaled {s : σ} (h : r.Starts s) (deeds : List Deed) :
    r.journaled.Starts ⟨s, deeds⟩ := by
  obtain ⟨text, htext⟩ := h.renders
  refine ⟨h.bounded, h.available, text, ?_⟩
  rw [journaled_firstRendering]
  exact htext

theorem journaled_conclude_questions (r : Run σ) (elapsed : Elapsed) (reason : StopReason)
    (st : RunState) (j : Journaled σ) :
    (r.journaled.conclude elapsed reason st j).2.questions = j.questions := by
  have hkeep : ∀ (ds : List Deed) d, d.isQuestion = false →
      ds.filter Deed.isQuestion = j.questions →
      (ds ++ [d]).filter Deed.isQuestion = j.questions := by
    intro ds d hd hds
    simp [hd, hds]
  have hclosing : (r.journaled.present (r.closingEntries reason elapsed) j).questions =
      j.questions := by
    rw [journaled_present]
    rfl
  have hpersist := ((r.host.journaled_simulates hkeep).persist r.resultDir r.config st.timeline
    (RunLog.contents (st.entries ++ r.closingEntries reason elapsed)) ⟨rfl, hclosing⟩).2.2
  unfold conclude
  dsimp only
  split
  · rename_i e j' h
    exact (congrArg (fun p => p.2.questions) h).symm.trans hpersist
  · rename_i a j' h
    exact (congrArg (fun p => p.2.questions) h).symm.trans hpersist

end Run

end NoiseTimeline
