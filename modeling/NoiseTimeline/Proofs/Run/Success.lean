import NoiseTimeline.Proofs.Run.Simulation
import NoiseTimeline.Proofs.Store.Room

/-! When a run ends well. One that starts, on a machine with room for its results,
tells in its outcome what the windows have brought. -/

namespace NoiseTimeline

variable {σ : Type} {P : σ → Prop}

/-- No answer makes untrue what is true of the state. -/
structure Collaborators.Preserves (c : Collaborators σ) (P : σ → Prop) : Prop where
  ensureAvailable : ∀ {s}, P s → P (c.ensureAvailable s).2
  render : ∀ request {s}, P s → P (c.render request s).2
  call : ∀ profile model {s}, P s → P (c.call profile model s).2
  parse : ∀ trace {s}, P s → P (c.parse trace s).2

theorem Collaborators.preserves_reciting (table : List (String × List Sample))
    (P : Machine → Prop) :
    (reciting table).Preserves P :=
  ⟨id, fun _ => id, fun _ _ => id, fun _ => id⟩

theorem Machine.hasRoom_empty (c : RunConfig) : ({} : Machine).HasRoom "r" c :=
  hasRoom_of_shallow (l := ["r"]) (by decide +kernel) (Or.inr ⟨rfl, rfl⟩) nofun

namespace Run

variable {r : Run σ} {s : σ}

theorem present_preserves (hsay : ∀ line {s}, P s → P (r.host.say line s)) (entries : List LogEntry)
    (hs : P s) :
    P (r.present entries s) := by
  have hlines : ∀ (lines : List ConsoleLine) {s}, P s →
      P (lines.foldl (fun s line => r.host.say line s) s) := by
    intro lines
    induction lines with
    | nil => exact id
    | cons line lines ih => exact fun hs => ih (hsay line hs)
  exact hlines _ hs

theorem simulates_self (h : r.collaborators.Preserves P)
    (hsay : ∀ line {s}, P s → P (r.host.say line s)) :
    r.Simulates r fun t s => t = s ∧ P s where
  config := rfl
  mode := rfl
  failureLimit := rfl
  render := by
    rintro request t s ⟨rfl, hs⟩
    exact ⟨rfl, rfl, h.render request hs⟩
  call := by
    rintro profile model t s ⟨rfl, hs⟩
    exact ⟨rfl, rfl, h.call profile model hs⟩
  parse := by
    rintro trace t s ⟨rfl, hs⟩
    exact ⟨rfl, rfl, h.parse trace hs⟩
  keptModel := by
    rintro model t s ⟨rfl, -⟩
    rfl
  present := by
    rintro entries t s ⟨rfl, hs⟩
    exact ⟨rfl, present_preserves hsay entries hs⟩
  event := by
    rintro level message t s ⟨rfl, hs⟩
    exact ⟨rfl, hsay _ hs⟩

/-- What the answers and the lines that are shown leave true is true when the results are due to be
stored. -/
theorem Starts.conducted_preserves (hc : r.config.IsValid) (hstarts : r.Starts s)
    (h : r.collaborators.Preserves P) (hsay : ∀ line {s}, P s → P (r.host.say line s)) (hs : P s) :
    P (r.conducted s).2 := by
  have hfollow :=
    (simulates_self h hsay).follow_opened rfl (t := s) (s := s) ⟨rfl, rfl, h.ensureAvailable hs⟩
  rw [follow_eq_conduct (hstarts.opens hc)] at hfollow
  exact hfollow.2.2

section Room

variable {r : Run Machine} {m : Machine} {elapsed : Elapsed}
  (hc : r.config.IsValid) (hstarts : r.Starts m) (hhost : r.host = Machine.host)
  (hkeeps : r.collaborators.Preserves (Machine.HasRoom r.resultDir r.config))
    (hroom : m.HasRoom r.resultDir r.config)

include hc hstarts hhost hkeeps hroom

/-- A run that starts, on a machine with room for its results, has an outcome whatever its windows
bring. -/
theorem Starts.execute_of_room (elapsed : Elapsed) :
    ∃ m', r.execute elapsed m = (.ok (r.outcome elapsed m (.within r.resultDir r.config)), m') := by
  have hsay : ∀ line {m : Machine}, m.HasRoom r.resultDir r.config →
      (r.host.say line m).HasRoom r.resultDir r.config := by
    intro line m hm
    rw [hhost]
    exact hm
  have hlast := present_preserves hsay (r.closingEntries (r.conducted m).1.1 elapsed)
    (hstarts.conducted_preserves hc hkeeps hsay hroom)
  obtain ⟨m', hpersist, -⟩ := Artifacts.exists_persist hc hlast (r.conducted m).1.2.timeline
    (RunLog.contents ((r.conducted m).1.2.entries ++ r.closingEntries (r.conducted m).1.1 elapsed))
  refine ⟨m', hstarts.execute_of_stored hc ?_⟩
  rw [storing, hhost]
  exact hpersist

theorem Starts.outcome_of_room {reason : StopReason} {attempted skipped : Nat} {timeline : Timeline}
    (hlast : let last := (r.conducted m).1
      (last.1, last.2.attempted, last.2.skipped, last.2.timeline) =
        (reason, attempted, skipped, timeline)) :
    (r.execute elapsed m).1 =
      .ok ⟨r.mode, reason, attempted, skipped, timeline, elapsed,
        .within r.resultDir r.config⟩ := by
  obtain ⟨m', hm'⟩ := hstarts.execute_of_room hc hhost hkeeps hroom elapsed
  obtain ⟨rfl, rfl, rfl, rfl⟩ := hlast
  rw [hm']
  rfl

end Room

end Run

end NoiseTimeline
