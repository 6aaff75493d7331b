import NoiseTimeline.Run.Attempt

/-!
A run from its first window to its stored artifacts. The windows are attempted strictly one after
the other; a simulation stops early when it saturates, or when it has no horizon and skips too many
windows in a row.
-/

namespace NoiseTimeline

structure Run (σ : Type) where
  config : RunConfig
  mode : Mode
  failureLimit : Option Nat := some 10
  logConfig : LogConfig := {}
  echo : Bool := false
  resultDir : String
  collaborators : Collaborators σ
  host : Host σ

structure RunState where
  timeline : Timeline := []
  attempted : Nat := 0
  skipped : Nat := 0
  consecutiveSkips : Nat := 0
  entries : List LogEntry := []
  deriving DecidableEq

namespace RunState

def record (st : RunState) (a : Attempt) : RunState :=
  { st with
    timeline := st.timeline ++ a.samples
    attempted := st.attempted + 1
    skipped := if a.isSkipped then st.skipped + 1 else st.skipped
    consecutiveSkips := if a.isSkipped then st.consecutiveSkips + 1 else 0 }

def note (st : RunState) (entries : List LogEntry) : RunState :=
  { st with entries := st.entries ++ entries }

def pMax (st : RunState) : Binary64 := st.timeline.maxProbability.getD .zero

end RunState

namespace Run

variable {σ : Type}

def present (r : Run σ) (entries : List LogEntry) (s : σ) : σ :=
  (entries.flatMap (r.logConfig.shown r.echo)).foldl (fun s line => r.host.say line s) s

def stopReason? (r : Run σ) (st : RunState) : Option StopReason :=
  match r.mode with
  | .check => none
  | .simulate =>
    match Convergence.ofTimeline st.timeline with
    | .saturated pMax clockCycle => some (.saturated clockCycle pMax)
    | .continuing =>
      match r.failureLimit, r.config.horizon with
      | some limit, none =>
        if limit ≤ st.consecutiveSkips then some (.failureLimit st.consecutiveSkips) else none
      | _, _ => none

def stopEntries : StopReason → List LogEntry
  | .failureLimit skips => [.warn ((StopReason.failureLimit skips).text ++ ", stopping")]
  | _ => []

def settle (r : Run σ) (w : Window) (a : Attempt) (st : RunState) (s : σ) : RunState × σ :=
  let st := st.record a
  let entries := a.entries w st.pMax
  let outside := (a.outside w).length
  let s := if outside = 0 then s
    else r.host.event .debug s!"{outside} samples outside clock cycle block {w.text}" s
  (st.note entries, r.present entries s)

/-- One window. Only the very first model may end the run by failing to render. -/
def attempt (r : Run σ) (w : Window) (st : RunState) (s : σ) : Except RunError RunState × σ :=
  let request := RenderRequest.ofWindow r.config w
  match r.collaborators.render request s with
  | (.error e, s) =>
    if st.attempted = 0 then (.error (.render w e), s)
    else
      let (st, s) := r.settle w (.renderFailed e) st s
      (.ok st, s)
  | (.ok text, s) =>
    let model := Model.text request.label text
    let (a, s) := Attempt.ofModel r.collaborators r.mode model s
    let (st, s) := r.settle w a st s
    let kept := keptEntries (r.collaborators.keptModel model s)
    (.ok (st.note kept), r.present kept s)

/-- Attempts window after window, at most as many as `count`, and says why it stopped. -/
def windows (r : Run σ) : Nat → Planner → RunState → σ → Except RunError (StopReason × RunState) × σ
  | 0, _, st, s => (.ok (.horizonExhausted, st), s)
  | count + 1, p, st, s =>
    match p.next with
    | (none, _) => (.ok (.horizonExhausted, st), s)
    | (some w, p) =>
      match r.attempt w st s with
      | (.error e, s) => (.error e, s)
      | (.ok st, s) =>
        match r.stopReason? st with
        | some reason =>
          let entries := stopEntries reason
          (.ok (reason, st.note entries), r.present entries s)
        | none => windows r count p st s

def planner (r : Run σ) : Planner := .new r.config.width r.config.horizon

def openingEntries (r : Run σ) : List LogEntry := [
  .header (r.config.header r.mode),
  .notice (s!"Starting {r.config.size}x{r.config.size} {r.config.property.title} {r.mode.text}" ++
    s!" with {r.collaborators.toolName}...")]

def closingEntries (r : Run σ) (reason : StopReason) (elapsed : Elapsed) : List LogEntry := [
  .notice s!"{r.mode.capitalized} complete ({reason.text}). Time elapsed: {elapsed.text}",
  .finish elapsed]

def conclude (r : Run σ) (elapsed : Elapsed) (reason : StopReason) (st : RunState) (s : σ) :
    Except RunError RunOutcome × σ :=
  let closing := r.closingEntries reason elapsed
  let s := r.present closing s
  let log := RunLog.contents (st.entries ++ closing)
  match Artifacts.persist r.host r.resultDir r.config st.timeline log s with
  | (.error e, s) => (.error (.store e), s)
  | (.ok artifacts, s) =>
    (.ok ⟨r.mode, reason, st.attempted, st.skipped, st.timeline, elapsed, artifacts⟩, s)

def execute (r : Run σ) (elapsed : Elapsed) (s : σ) : Except RunError RunOutcome × σ :=
  if r.mode = .check ∧ r.config.horizon = none then (.error .unboundedCheck, s)
  else
    match r.collaborators.ensureAvailable s with
    | (.error e, s) => (.error (.precondition e), s)
    | (.ok (), s) =>
      let opening := r.openingEntries
      let s := r.present opening s
      match r.windows r.planner.remaining r.planner (RunState.note {} opening) s with
      | (.error e, s) => (.error e, s)
      | (.ok (reason, st), s) => r.conclude elapsed reason st s

end Run

end NoiseTimeline
