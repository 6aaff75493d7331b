import NoiseTimeline.Proofs.Run.Failure
import NoiseTimeline.Proofs.Run.Success
import NoiseTimeline.Proofs.Trace

/-! The order of a timeline. The windows of a run ascend, so batches of samples that stay
in their windows ascend from one end of the timeline to the other. -/

namespace NoiseTimeline

theorem Trace.parse_ascending {trace : String} {xs : List Sample} (h : parse trace = .ok xs) :
    xs.Pairwise fun x y => x.clockCycle ≤ y.clockCycle := by
  rw [parse] at h
  split at h
  · cases h
  · cases h
  · cases h
    exact byClockCycle_ascending _

theorem Attempt.isSkipped_of_mem_samples {a : Attempt} {x : Sample} (h : x ∈ a.samples) :
    a.isSkipped = false := by
  cases a with
  | simulated samples trace => rfl
  | _ => cases h

namespace Run

variable {σ : Type} {r : Run σ} {elapsed : Elapsed} {s : σ} {o : RunOutcome}

/-- The first `n` windows with what became of them. -/
def visited (r : Run σ) (n : Nat) (s : σ) : List (Window × Attempt) :=
  (r.planner.windows.zip (r.answers s)).take n

theorem visited_map_fst (r : Run σ) (n : Nat) (s : σ) :
    (r.visited n s).map Prod.fst = r.planner.windows.take n := by
  rw [visited, List.map_take, List.map_fst_zip (Nat.le_of_eq (answers_length r s).symm)]

theorem visited_map_snd (r : Run σ) (n : Nat) (s : σ) :
    (r.visited n s).map Prod.snd = (r.answers s).take n := by
  rw [visited, List.map_take, List.map_snd_zip (Nat.le_of_eq (answers_length r s))]

theorem visited_ascending (hc : r.config.IsValid) (n : Nat) (s : σ) :
    (r.visited n s).Pairwise fun v w => v.1.upper < w.1.lower := by
  have hwindows : ((r.visited n s).map Prod.fst).Pairwise fun v w => v.upper < w.lower := by
    rw [visited_map_fst]
    exact (windows_ascending hc).sublist (List.take_sublist n _)
  exact List.pairwise_map.mp hwindows

theorem outcome_timeline (r : Run σ) (elapsed : Elapsed) (s : σ) (a : Artifacts) :
    (r.outcome elapsed s a).attempted ≤ r.planner.windows.length ∧
      (r.outcome elapsed s a).timeline =
        (r.visited (r.outcome elapsed s a).attempted s).flatMap (·.2.samples) := by
  obtain ⟨n, hn, reason, hconducted, hattempted⟩ := r.conducted_eq_after s
  have htimeline : (r.conducted s).1.2.timeline =
      ((r.answers s).take n).flatMap Attempt.samples := by
    rw [hconducted]
    exact (after_counts r n s).timeline
  have hn' : (r.outcome elapsed s a).attempted = n := hattempted
  rw [hn']
  refine ⟨hn, ?_⟩
  rw [← visited_map_snd, List.flatMap_map] at htimeline
  exact htimeline

theorem exists_outcome (hc : r.config.IsValid) (ho : (r.execute elapsed s).1 = .ok o) :
    ∃ a, o = r.outcome elapsed s a := by
  rcases execute_cases hc elapsed s
    with ⟨e, _, s', -, heq⟩ | ⟨cause, s', -, -, heq⟩ | ⟨a, s', -, -, heq⟩
  · rw [heq] at ho
    cases ho
  · rw [heq] at ho
    cases ho
  · rw [heq] at ho
    cases ho
    exact ⟨a, rfl⟩

theorem pairwise_samples {visited : List (Window × Attempt)} {R : Sample → Sample → Prop}
    (hR : ∀ {x y : Sample}, x.clockCycle < y.clockCycle → R x y)
    (hwindows : visited.Pairwise fun v w => v.1.upper < w.1.lower)
    (hinside : ∀ v ∈ visited, ∀ x ∈ v.2.samples, v.1.contains x.clockCycle = true)
    (hsamples : ∀ v ∈ visited, v.2.samples.Pairwise R) :
    (visited.flatMap (·.2.samples)).Pairwise R := by
  rw [List.pairwise_flatMap]
  refine ⟨hsamples, hwindows.imp_of_mem ?_⟩
  intro v w hv hw hlt x hx y hy
  have hxv := hinside v hv x hx
  have hyw := hinside w hw y hy
  simp only [Window.contains, Bool.and_eq_true, decide_eq_true_eq] at hxv hyw
  exact hR (by omega)

theorem existsUnique_window {visited : List (Window × Attempt)} {x : Sample}
    (hwindows : visited.Pairwise fun v w => v.1.upper < w.1.lower)
    (hinside : ∀ v ∈ visited, ∀ x ∈ v.2.samples, v.1.contains x.clockCycle = true)
    (hx : x ∈ visited.flatMap (·.2.samples)) :
    ∃! k : Nat, ∃ v, visited[k]? = some v ∧ v.2.isSkipped = false ∧
    v.1.contains x.clockCycle = true := by
  obtain ⟨v, hv, hxv⟩ := List.mem_flatMap.mp hx
  obtain ⟨k, hk⟩ := List.mem_iff_getElem?.mp hv
  have hcontains := hinside v hv x hxv
  refine ⟨k, ⟨v, hk, Attempt.isSkipped_of_mem_samples hxv, hcontains⟩, ?_⟩
  rintro j ⟨w, hj, -, hw⟩
  simp only [Window.contains, Bool.and_eq_true, decide_eq_true_eq] at hcontains hw
  have hapart : ∀ {i j : Nat} {v w : Window × Attempt}, visited[i]? = some v →
      visited[j]? = some w → i < j → v.1.upper < w.1.lower := by
    intro i j v w hi hj hij
    obtain ⟨hi', rfl⟩ := List.getElem?_eq_some_iff.mp hi
    obtain ⟨hj', rfl⟩ := List.getElem?_eq_some_iff.mp hj
    exact List.pairwise_iff_getElem.mp hwindows i j hi' hj' hij
  rcases Nat.lt_trichotomy j k with hlt | rfl | hlt
  · have hends := hapart hj hk hlt
    omega
  · rfl
  · have hends := hapart hk hj hlt
    omega

/-- If each trace keeps to the clock cycles of its window, the timeline ascends and each of its
samples lies in exactly one window that was attempted and not skipped. If no trace repeats a cycle,
no cycle appears twice. -/
theorem timeline_in_order (hc : r.config.IsValid)
    (hparse : ∀ trace s, (r.collaborators.parse trace s).1 = Trace.parse trace)
    (ho : (r.execute elapsed s).1 = .ok o)
    (hinside : ∀ v ∈ r.visited o.attempted s, ∀ x ∈ v.2.samples, v.1.contains x.clockCycle = true) :
    o.attempted ≤ r.planner.windows.length ∧
    o.timeline = (r.visited o.attempted s).flatMap (·.2.samples) ∧
    o.timeline.Pairwise (fun x y => x.clockCycle ≤ y.clockCycle) ∧
    (∀ x ∈ o.timeline, ∃! k : Nat, ∃ v, (r.visited o.attempted s)[k]? = some v ∧
      v.2.isSkipped = false ∧ v.1.contains x.clockCycle = true) ∧
    ((∀ v ∈ r.visited o.attempted s, (v.2.samples.map Sample.clockCycle).Nodup) →
      o.timeline.Pairwise fun x y => x.clockCycle < y.clockCycle) := by
  obtain ⟨a, rfl⟩ := exists_outcome hc ho
  obtain ⟨hattempted, htimeline⟩ := outcome_timeline r elapsed s a
  generalize (r.outcome elapsed s a).attempted = n at *
  have hwindows := visited_ascending hc n s
  have hbatches : ∀ v ∈ r.visited n s, v.2.samples.Pairwise fun x y =>
      x.clockCycle ≤ y.clockCycle := by
    intro v hv
    obtain ⟨w, -, st, s', hvisit⟩ := mem_course (List.of_mem_zip (List.mem_of_mem_take hv)).2
    rw [hvisit]
    refine visit_samples .nil (fun trace s xs hxs => ?_) w st s'
    exact Trace.parse_ascending ((hparse trace s).symm.trans hxs)
  rw [htimeline]
  refine ⟨hattempted, rfl, ?_, ?_, ?_⟩
  · exact pairwise_samples Nat.le_of_lt hwindows hinside hbatches
  · exact fun x hx => existsUnique_window hwindows hinside hx
  · intro hnodup
    refine pairwise_samples id hwindows hinside fun v hv => ?_
    have hne : v.2.samples.Pairwise fun x y => x.clockCycle ≠ y.clockCycle :=
      List.pairwise_map.mp (hnodup v hv)
    exact (hbatches v hv).imp₂ (fun _ _ hle hne => Nat.lt_of_le_of_ne hle hne) hne

/-- The samples of a first and a third window. -/
def tornSamples : List (List Sample) := [[⟨3, .zero⟩, ⟨4, .zero⟩], [⟨100, .zero⟩]]

def readTorn (trace : String) : Except TraceError (List Sample) :=
  match tornSamples.find? fun xs => Trace.resultsText xs = trace with
  | some xs => .ok xs
  | none => Trace.parse trace

theorem readTorn_eq (trace : String) : readTorn trace = Trace.parse trace := by
  have hknown : ∀ xs ∈ tornSamples, xs ≠ [] ∧ (∀ x ∈ xs, Trace.IsResult x) ∧
      xs.Pairwise fun x y => x.clockCycle ≤ y.clockCycle := by
    decide
  unfold readTorn
  split
  · rename_i xs hxs
    exact (Trace.parse_of_find? hknown hxs).symm
  · rfl

/-- Its tool knows the first and the last of three windows. -/
def tornRun : Run Machine where
  config := { size := 2, property := .irDrop, horizon := some 120 }
  mode := .simulate
  resultDir := "r"
  collaborators :=
    { Collaborators.reciting [] with
      call := fun _ model s =>
        (((["(0,49)", "(100,120)"].zip tornSamples).lookup (model.content?.getD "")).elim
          (.error (.toolNotFound "modest"))
          fun xs => .ok (Trace.resultsText xs), s)
      parse := fun trace s => (readTorn trace, s) }
  host := Machine.host

def tornOutcome : RunOutcome :=
  ⟨.simulate, .horizonExhausted, 3, 1, [⟨3, .zero⟩, ⟨4, .zero⟩, ⟨100, .zero⟩], ⟨0, 0⟩,
    .within "r" tornRun.config⟩

theorem tornRun_execute : (tornRun.execute ⟨0, 0⟩ {}).1 = .ok tornOutcome := by
  have hvalid : tornRun.config.IsValid := ⟨rfl, by decide, by decide, by decide⟩
  have hstarts : tornRun.Starts {} := ⟨not_isUnboundedCheck rfl, rfl, _, rfl⟩
  exact hstarts.outcome_of_room hvalid rfl ⟨id, fun _ => id, fun _ _ => id, fun _ => id⟩
    (Machine.hasRoom_empty _) (by decide +kernel)

theorem tornRun_visited : tornRun.visited 3 {} =
    [(⟨0, 49⟩, .simulated [⟨3, .zero⟩, ⟨4, .zero⟩] (Trace.resultsText [⟨3, .zero⟩, ⟨4, .zero⟩])),
      (⟨50, 99⟩, .simulateFailed (.toolNotFound "modest")),
      (⟨100, 120⟩, .simulated [⟨100, .zero⟩] (Trace.resultsText [⟨100, .zero⟩]))] := by
  decide +kernel

theorem tornRun_in_order : tornOutcome.timeline.Pairwise (fun x y => x.clockCycle < y.clockCycle) ∧
    ∀ x ∈ tornOutcome.timeline, ∃! k : Nat, ∃ v, (tornRun.visited 3 {})[k]? = some v ∧
      v.2.isSkipped = false ∧ v.1.contains x.clockCycle = true := by
  have hvalid : tornRun.config.IsValid := ⟨rfl, by decide, by decide, by decide⟩
  have hinside : ∀ v ∈ tornRun.visited 3 {}, ∀ x ∈ v.2.samples,
      v.1.contains x.clockCycle = true := by
    rw [tornRun_visited]
    simp [Attempt.samples, Window.contains]
  have hnodup : ∀ v ∈ tornRun.visited 3 {}, (v.2.samples.map Sample.clockCycle).Nodup := by
    rw [tornRun_visited]
    simp [Attempt.samples]
  obtain ⟨-, -, -, hunique, hstrict⟩ :=
    timeline_in_order hvalid (fun trace _ => readTorn_eq trace) tornRun_execute hinside
  exact ⟨hstrict hnodup, hunique⟩

end Run

end NoiseTimeline
