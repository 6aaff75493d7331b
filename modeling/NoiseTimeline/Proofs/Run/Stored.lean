import NoiseTimeline.Proofs.Run.Success
import NoiseTimeline.Proofs.RunLog

/-! What a run leaves on its host. When it ends well, its timeline and its log are stored
under the paths that its outcome names, and reading the timeline's gives it again. -/

namespace NoiseTimeline

variable {σ : Type} {tree : σ → FileTree} {cwd : σ → Location}

namespace Run

variable {r : Run σ}

/-- The text of the run log. -/
def log (r : Run σ) (elapsed : Elapsed) (s : σ) : String :=
  RunLog.contents ((r.conducted s).1.2.entries ++ r.closingEntries (r.conducted s).1.1 elapsed)

/-- Only the last line tells how long the run has taken. -/
theorem log_eq (r : Run σ) (elapsed : Elapsed) (s : σ) : r.log elapsed s =
    RunLog.contents (r.conducted s).1.2.entries ++ "\nTotal elapsed time: " ++ elapsed.text ++
      "\n" := by
  have hline : "\n" ++ "Total elapsed time: " = "\nTotal elapsed time: " := by simp
  have hfinish : (LogEntry.finish elapsed).persisted =
      "\nTotal elapsed time: " ++ elapsed.text ++ "\n" := by
    rw [← hline, String.append_assoc]
    rfl
  have hclosing : RunLog.contents (r.closingEntries (r.conducted s).1.1 elapsed) =
      (LogEntry.finish elapsed).persisted := by
    rw [RunLog.contents, closingEntries, List.map_cons, List.map_cons, List.map_nil,
      String.join_cons, String.join_cons, String.join_nil, String.append_empty]
    exact String.empty_append
  rw [log, RunLog.contents_append, hclosing, hfinish, String.append_assoc, String.append_assoc,
    String.append_assoc]

theorem persist_of_execute_ok {elapsed : Elapsed} {s s' : σ} {o : RunOutcome}
    (h : r.execute elapsed s = (.ok o, s')) :
    ∃ s₁, Artifacts.persist r.host r.resultDir r.config o.timeline (r.log elapsed s) s₁ =
      (.ok o.artifacts, s') := by
  obtain ⟨hstoring, ho⟩ := storing_of_execute_ok h
  have htimeline : o.timeline = (r.conducted s).1.2.timeline := congrArg RunOutcome.timeline ho
  rw [htimeline]
  exact ⟨_, hstoring⟩

theorem artifacts_of_execute_ok {elapsed : Elapsed} {s s' : σ} {o : RunOutcome}
    (h : r.execute elapsed s = (.ok o, s')) :
    o.artifacts = .within r.resultDir r.config := by
  obtain ⟨s₁, hpersist⟩ := persist_of_execute_ok h
  exact (Artifacts.persist_eq_ok hpersist).1

theorem read_execute (hf : r.host.HasFiles tree cwd) {elapsed : Elapsed} {s s' : σ} {o : RunOutcome}
    (h : r.execute elapsed s = (.ok o, s')) :
    (tree s').read (cwd s') o.artifacts.csv = .ok (TimelineCsv.write o.timeline).toUTF8 ∧
      (tree s').read (cwd s') o.artifacts.runLog = .ok (r.log elapsed s).toUTF8 := by
  obtain ⟨s₁, hpersist⟩ := persist_of_execute_ok h
  exact Artifacts.read_persist hf hpersist

theorem readTimeline_execute (hf : r.host.HasFiles tree cwd) {elapsed : Elapsed} {s s' : σ}
    {o : RunOutcome} (h : r.execute elapsed s = (.ok o, s')) (ht : ∀ x ∈ o.timeline, x.IsStorable) :
    readTimeline r.host.toDisk o.artifacts.csv s' = .ok o.timeline := by
  obtain ⟨s₁, hpersist⟩ := persist_of_execute_ok h
  exact Artifacts.readTimeline_persist hf ht hpersist

end Run

/-- What is stored reads back: a timeline from its text, a run's timeline from the path in its
outcome, and a timeline that was read from the text that it is written as again. -/
theorem stored_timeline_reads_back :
    (∀ t : Timeline, (∀ x ∈ t, x.IsStorable) → TimelineCsv.parse (TimelineCsv.write t) = .ok t) ∧
    (∀ {σ : Type} (r : Run σ) (tree : σ → FileTree) (cwd : σ → Location), r.host.HasFiles tree cwd →
      ∀ elapsed s o s', r.execute elapsed s = (.ok o, s') → (∀ x ∈ o.timeline, x.IsStorable) →
        readTimeline r.host.toDisk o.artifacts.csv s' = .ok o.timeline) ∧
    (∀ text t, TimelineCsv.parse text = .ok t → (∀ x ∈ t, x.probability.isNaN = false) →
      TimelineCsv.parse (TimelineCsv.write t) = .ok t) := by
  refine ⟨fun t ht => TimelineCsv.parse_write ht, ?_, ?_⟩
  · intro σ r tree cwd hf elapsed s o s' h ht
    exact Run.readTimeline_execute hf h ht
  · intro text t h ht
    exact TimelineCsv.parse_write fun x hx => ⟨TimelineCsv.parse_clockCycle_lt h x hx, ht x hx⟩

/-- Samples out of order, one cycle twice, with a zero below zero, the least number above zero and
an infinity. -/
def mixedSamples : List Sample :=
  [⟨lastCycle, ⟨0x8000000000000000⟩⟩, ⟨7, ⟨1⟩⟩, ⟨7, ⟨0x7ff0000000000000⟩⟩]

def mixedRun : Run Machine where
  config := { size := 2, property := .irDrop, horizon := some 3 }
  mode := .simulate
  resultDir := "r"
  collaborators := .reciting [("(0,3)", mixedSamples)]
  host := Machine.host

theorem isStorable_mixedSamples : ∀ x ∈ mixedSamples, x.IsStorable := by
  intro x hx
  simp only [mixedSamples, List.mem_cons, List.not_mem_nil, or_false] at hx
  rcases hx with rfl | rfl | rfl
  · exact ⟨by decide +kernel, by decide +kernel⟩
  · exact ⟨by decide +kernel, by decide +kernel⟩
  · exact ⟨by decide +kernel, by decide +kernel⟩

def mixedOutcome : RunOutcome :=
  ⟨.simulate, .saturated 7 ⟨0x7ff0000000000000⟩, 1, 0, mixedSamples, ⟨0, 0⟩,
    .within "r" mixedRun.config⟩

theorem mixedSamples_read_back :
    TimelineCsv.parse (TimelineCsv.write mixedSamples) = .ok mixedSamples ∧
    ∃ s', mixedRun.execute ⟨0, 0⟩ {} = (.ok mixedOutcome, s') ∧
      readTimeline mixedRun.host.toDisk mixedOutcome.artifacts.csv s' = .ok mixedSamples := by
  refine ⟨stored_timeline_reads_back.1 mixedSamples isStorable_mixedSamples, ?_⟩
  have hvalid : mixedRun.config.IsValid := ⟨rfl, by decide, by decide, by decide⟩
  have hstarts : mixedRun.Starts {} := ⟨Run.not_isUnboundedCheck rfl, rfl, _, rfl⟩
  have hok : (mixedRun.execute ⟨0, 0⟩ {}).1 = .ok mixedOutcome :=
    hstarts.outcome_of_room hvalid rfl (Collaborators.preserves_reciting _ _)
      (Machine.hasRoom_empty _) (by decide +kernel)
  have hpair : ∀ p : Except RunError RunOutcome × Machine, p.1 = .ok mixedOutcome →
      ∃ s', p = (.ok mixedOutcome, s') :=
    fun p hp => ⟨p.2, Prod.ext hp rfl⟩
  obtain ⟨s', hrun⟩ := hpair _ hok
  exact ⟨s', hrun,
    stored_timeline_reads_back.2.1 mixedRun Machine.tree Machine.cwd Machine.hasFiles_host ⟨0, 0⟩ {}
    mixedOutcome s' hrun isStorable_mixedSamples⟩

end NoiseTimeline
