import Mathlib.Data.Prod.Basic
import NoiseTimeline.Proofs.Run.Conduct

/-! Which sample a saturated run reports. While the samples before stay below saturation,
the newest alone decide, so the sample reported comes from the last window attempted. -/

namespace NoiseTimeline

theorem Binary64.lt_of_lt_of_le {x y z : Binary64} (hxy : x.lt y = true)
    (hyz : y.le z = true) : x.lt z = true := by
  rw [lt_iff] at hxy ⊢
  rw [le_iff] at hyz
  exact ⟨hxy.1, hyz.2.1, Int.lt_of_lt_of_le hxy.2.2 hyz.2.2⟩

theorem Binary64.lt_of_le_of_lt {x y z : Binary64} (hxy : x.le y = true) (hyz : y.lt z = true) :
    x.lt z = true := by
  rw [lt_iff] at hyz ⊢
  rw [le_iff] at hxy
  exact ⟨hxy.1, hyz.2.1, Int.lt_of_le_of_lt hxy.2.2 hyz.2.2⟩

theorem Binary64.le_of_lt {x y : Binary64} (h : x.lt y = true) : x.le y = true := by
  rw [lt_iff] at h
  exact le_iff.mpr ⟨h.1, h.2.1, Int.le_of_lt h.2.2⟩

namespace Timeline

variable {t b : Timeline} {x y : Sample}

/-- No probability is NaN. -/
def IsNumeric (t : Timeline) : Prop := ∀ x ∈ t, x.probability.isNaN = false

/-- The first of the samples of maximal probability. -/
def IsFirstPeak (t : Timeline) (x : Sample) : Prop :=
  ∃ before after, t = before ++ x :: after ∧ (∀ y ∈ t, y.probability.le x.probability = true) ∧
    ∀ y ∈ before, y.probability.lt x.probability = true

theorem IsFirstPeak.mem (h : t.IsFirstPeak x) : x ∈ t := by
  obtain ⟨before, after, rfl, -⟩ := h
  exact List.mem_append_right _ List.mem_cons_self

theorem IsFirstPeak.le (h : t.IsFirstPeak x) : ∀ y ∈ t, y.probability.le x.probability = true := by
  obtain ⟨before, after, -, hmax, -⟩ := h
  exact hmax

theorem IsFirstPeak.unique (hx : t.IsFirstPeak x) (hy : t.IsFirstPeak y) : x = y := by
  obtain ⟨before, after, hsplit, hmax, hbefore⟩ := hx
  obtain ⟨before', after', hsplit', hmax', hbefore'⟩ := hy
  have habsurd : ∀ {v w : Sample}, v.probability.le w.probability = true →
      w.probability.lt v.probability = true → False := by
    intro v w hle hlt
    have h1 := (Binary64.le_iff.mp hle).2.2
    have h2 := (Binary64.lt_iff.mp hlt).2.2
    omega
  -- If one of the two came first, it would be less than the other.
  rcases List.append_eq_append_iff.mp (hsplit.symm.trans hsplit')
    with ⟨gap, hgap, hrest⟩ | ⟨gap, hgap, hrest⟩
  · cases gap with
    | nil => exact (List.cons.inj hrest).1
    | cons z gap =>
      obtain rfl := (List.cons.inj hrest).1
      have hxt : x ∈ before' := by simp [hgap]
      exact (habsurd (hmax y (hsplit' ▸ by simp)) (hbefore' x hxt)).elim
  · cases gap with
    | nil => exact (List.cons.inj hrest).1.symm
    | cons z gap =>
      obtain rfl := (List.cons.inj hrest).1
      have hyt : y ∈ before := by simp [hgap]
      exact (habsurd (hmax' x (hsplit ▸ by simp)) (hbefore y hyt)).elim

theorem IsFirstPeak.append (h : b.IsFirstPeak x)
    (ht : ∀ y ∈ t, y.probability.lt x.probability = true) :
    Timeline.IsFirstPeak (t ++ b) x := by
  obtain ⟨before, after, hsplit, hmax, hbefore⟩ := h
  refine ⟨t ++ before, after, by rw [hsplit, List.append_assoc], ?_, ?_⟩
  · intro y hy
    rcases List.mem_append.mp hy with hy | hy
    · exact Binary64.le_of_lt (ht y hy)
    · exact hmax y hy
  · intro y hy
    exact (List.mem_append.mp hy).elim (ht y) (hbefore y)

end Timeline

namespace Convergence

variable {t b : Timeline} {pMax : Binary64} {clockCycle : Nat}

theorem exists_saturated_iff (ht : t.IsNumeric) :
    (∃ pMax clockCycle, ofTimeline t = .saturated pMax clockCycle) ↔
    ∃ x ∈ t, saturation.le x.probability = true := by
  constructor
  · rintro ⟨pMax, clockCycle, hsaturated⟩
    by_contra hnone
    have hbelow : ∀ x ∈ t, saturation.le x.probability = false :=
      fun x hx => Bool.eq_false_iff.mpr fun hle => hnone ⟨x, hx, hle⟩
    rw [ofTimeline_of_below ht hbelow] at hsaturated
    cases hsaturated
  · intro hreached
    obtain ⟨before, x, after, -, heq, -⟩ := ofTimeline_of_reached ht hreached
    exact ⟨_, _, heq⟩

theorem ofTimeline_eq_saturated_iff (ht : t.IsNumeric) :
    ofTimeline t = .saturated pMax clockCycle ↔
      ∃ x, t.IsFirstPeak x ∧ saturation.le x.probability = true ∧ x.probability = pMax ∧
      x.clockCycle = clockCycle := by
  have hpeak : (∃ x ∈ t, saturation.le x.probability = true) → ∃ x, t.IsFirstPeak x ∧
      saturation.le x.probability = true ∧
      ofTimeline t = .saturated x.probability x.clockCycle := by
    rintro ⟨y, hy, hsat⟩
    obtain ⟨before, x, after, hsplit, heq, hmax, hbefore⟩ := ofTimeline_of_reached ht ⟨y, hy, hsat⟩
    exact ⟨x, ⟨before, after, hsplit, hmax, hbefore⟩, Binary64.le_trans hsat (hmax y hy), heq⟩
  constructor
  · intro hsaturated
    obtain ⟨x, hx, hsat, heq⟩ := hpeak ((exists_saturated_iff ht).mp ⟨_, _, hsaturated⟩)
    rw [hsaturated] at heq
    cases heq
    exact ⟨x, hx, hsat, rfl, rfl⟩
  · rintro ⟨x, hx, hsat, rfl, rfl⟩
    obtain ⟨y, hy, -, heq⟩ := hpeak ⟨x, hx.mem, hsat⟩
    rwa [hy.unique hx] at heq

theorem below_of_continuing (ht : t.IsNumeric) (h : ofTimeline t = .continuing) :
    ∀ x ∈ t, x.probability.lt saturation = true := by
  intro x hx
  rw [Binary64.lt_eq_not_le (ht x hx) saturation_isNaN, Bool.not_eq_true', Bool.eq_false_iff]
  intro hsat
  obtain ⟨_, _, hsaturated⟩ := (exists_saturated_iff ht).mpr ⟨x, hx, hsat⟩
  cases h.symm.trans hsaturated

/-- Once the samples so far do not saturate, those that follow are judged by themselves. -/
theorem ofTimeline_append (ht : t.IsNumeric) (hb : b.IsNumeric) (h : ofTimeline t = .continuing) :
    ofTimeline (t ++ b) = ofTimeline b := by
  have hboth : Timeline.IsNumeric (t ++ b) := fun x hx => (List.mem_append.mp hx).elim (ht x) (hb x)
  have hlow := below_of_continuing ht h
  cases heq : ofTimeline b with
  | continuing =>
    refine ofTimeline_of_below hboth fun x hx => ?_
    rw [← Bool.not_eq_true', ← Binary64.lt_eq_not_le (hboth x hx) saturation_isNaN]
    exact (List.mem_append.mp hx).elim (hlow x) (below_of_continuing hb heq x)
  | saturated pMax clockCycle =>
    obtain ⟨x, hx, hsat, hp, hc⟩ := (ofTimeline_eq_saturated_iff hb).mp heq
    refine (ofTimeline_eq_saturated_iff hboth).mpr ⟨x, hx.append fun y hy => ?_, hsat, hp, hc⟩
    exact Binary64.lt_of_lt_of_le (hlow y hy) hsat

end Convergence

namespace Run

variable {σ : Type} {r : Run σ} {st : RunState} {elapsed : Elapsed} {s s' : σ} {o : RunOutcome}
  {clockCycle : Nat} {pMax : Binary64}

theorem ofTimeline_of_stopReason? (hmode : r.mode = .simulate)
    (h : r.stopReason? st = some (.saturated clockCycle pMax)) :
    Convergence.ofTimeline st.timeline = .saturated pMax clockCycle := by
  rw [stopReason?, hmode] at h
  dsimp only at h
  split at h
  · rename_i heq
    cases h
    exact heq
  · split at h
    · split at h <;> cases h
    · cases h

theorem continuing_of_stopReason? (hmode : r.mode = .simulate) (h : r.stopReason? st = none) :
    Convergence.ofTimeline st.timeline = .continuing := by
  rw [stopReason?, hmode] at h
  dsimp only at h
  split at h
  · cases h
  · rename_i heq
    exact heq

/-- The samples of the windows before the last do not saturate yet. -/
theorem ofTimeline_conducted (hmode : r.mode = .simulate)
    (h : (r.conducted s).1.1 = .saturated clockCycle pMax) :
    ∃ earlier last, (r.answers s).take (r.conducted s).1.2.attempted = earlier ++ [last] ∧
      (r.conducted s).1.2.timeline = earlier.flatMap Attempt.samples ++ last.samples ∧
      Convergence.ofTimeline (earlier.flatMap Attempt.samples) = .continuing ∧
      Convergence.ofTimeline (earlier.flatMap Attempt.samples ++ last.samples) =
        .saturated pMax clockCycle := by
  obtain ⟨n, reason, hhalts, hconducted, hattempted⟩ := r.conducted_haltsAfter s
  obtain rfl : reason = .saturated clockCycle pMax := by
    rw [hconducted] at h
    exact h
  obtain ⟨hpos, hstop⟩ := hhalts.stops.resolve_left fun ⟨_, hreason⟩ => nomatch hreason
  obtain ⟨k, rfl⟩ := Nat.exists_eq_succ_of_ne_zero (Nat.ne_of_gt hpos)
  have hk : k < (r.answers s).length := answers_length r s ▸ hhalts.le_length
  have htake : (r.answers s).take (k + 1) = (r.answers s).take k ++ [(r.answers s)[k]] :=
    List.take_succ_eq_append_getElem hk
  have hlast : (r.after (k + 1) s).1.timeline =
      ((r.answers s).take k).flatMap Attempt.samples ++ (r.answers s)[k].samples := by
    rw [(after_counts r (k + 1) s).timeline, htake, List.flatMap_append, List.flatMap_singleton]
  refine ⟨(r.answers s).take k, (r.answers s)[k], ?_, ?_, ?_, ?_⟩
  · rw [hattempted, htake]
  · rw [hconducted]
    exact hlast
  · cases k with
    | zero => rfl
    | succ k =>
      rw [← (after_counts r (k + 1) s).timeline]
      exact continuing_of_stopReason? hmode (hhalts.goesOn k (Nat.lt_succ_self _))
  · rw [← hlast]
    exact ofTimeline_of_stopReason? hmode hstop

/-- A timeline is saturated just if one of its samples is, and the first sample of maximal
probability is reported. Samples that are added to a timeline not yet saturated are judged as if
they were alone, so a simulation that stops saturated reports a sample of the last window that it
has attempted. -/
theorem saturation_decided_by_newest :
    (∀ t b : Timeline, t.IsNumeric → b.IsNumeric →
      ((∃ pMax clockCycle, Convergence.ofTimeline t = .saturated pMax clockCycle) ↔
        ∃ x ∈ t, saturation.le x.probability = true) ∧
      (∀ pMax clockCycle, Convergence.ofTimeline t = .saturated pMax clockCycle →
        ∃ x, t.IsFirstPeak x ∧ x.probability = pMax ∧ x.clockCycle = clockCycle) ∧
      (Convergence.ofTimeline t = .continuing →
        ((∃ pMax clockCycle, Convergence.ofTimeline (t ++ b) = .saturated pMax clockCycle) ↔
          ∃ x ∈ b, saturation.le x.probability = true) ∧
        Convergence.ofTimeline (t ++ b) = Convergence.ofTimeline b)) ∧
    ∀ (σ : Type) (r : Run σ) (elapsed : Elapsed) (s s' : σ) (o : RunOutcome)
      (clockCycle : Nat) (pMax : Binary64),
      r.mode = .simulate → o.timeline.IsNumeric → r.execute elapsed s = (.ok o, s') →
      o.stopReason = .saturated clockCycle pMax →
        ∃ earlier last x, (r.answers s).take o.attempted = earlier ++ [last] ∧
          o.timeline = earlier.flatMap Attempt.samples ++ last.samples ∧
          x.probability = pMax ∧ x.clockCycle = clockCycle ∧
          Timeline.IsFirstPeak last.samples x ∧ o.timeline.IsFirstPeak x := by
  refine ⟨fun t b ht hb => ⟨Convergence.exists_saturated_iff ht, ?_, ?_⟩, ?_⟩
  · intro pMax clockCycle hsaturated
    obtain ⟨x, hx, -, hp, hc⟩ := (Convergence.ofTimeline_eq_saturated_iff ht).mp hsaturated
    exact ⟨x, hx, hp, hc⟩
  · intro hcontinuing
    have happend := Convergence.ofTimeline_append ht hb hcontinuing
    refine ⟨?_, happend⟩
    rw [happend]
    exact Convergence.exists_saturated_iff hb
  · intro σ r elapsed s s' o clockCycle pMax hmode hnumeric ho hreason
    obtain ⟨-, heq⟩ := storing_of_execute_ok ho
    have hattempted : o.attempted = (r.conducted s).1.2.attempted :=
      congrArg RunOutcome.attempted heq
    have htimeline : o.timeline = (r.conducted s).1.2.timeline := congrArg RunOutcome.timeline heq
    have hstopped : (r.conducted s).1.1 = .saturated clockCycle pMax :=
      (congrArg RunOutcome.stopReason heq).symm.trans hreason
    obtain ⟨earlier, last, htake, hsplit, hcontinuing, hsaturated⟩ :=
      ofTimeline_conducted hmode hstopped
    rw [← hattempted] at htake
    rw [← htimeline] at hsplit
    rw [hsplit] at hnumeric ⊢
    have hearlier : Timeline.IsNumeric (earlier.flatMap Attempt.samples) :=
      fun x hx => hnumeric x (List.mem_append_left _ hx)
    have hlast : Timeline.IsNumeric last.samples :=
      fun x hx => hnumeric x (List.mem_append_right _ hx)
    have halone := hsaturated
    rw [Convergence.ofTimeline_append hearlier hlast hcontinuing] at halone
    obtain ⟨x, hx, hsat, hp, hc⟩ := (Convergence.ofTimeline_eq_saturated_iff hlast).mp halone
    refine ⟨earlier, last, x, htake, rfl, hp, hc, hx, hx.append fun y hy => ?_⟩
    exact Binary64.lt_of_lt_of_le (Convergence.below_of_continuing hearlier hcontinuing y hy) hsat

/-- The two cycles of the third window share the maximum, and the first of them is reported. -/
theorem interruptedRun_reports_newest :
    Convergence.ofTimeline ([⟨0, .zero⟩] ++ [⟨100, .one⟩, ⟨101, .one⟩]) =
        Convergence.ofTimeline [⟨100, .one⟩, ⟨101, .one⟩] ∧
      ∃ earlier last x, (interruptedRun.answers {}).take 3 = earlier ++ [last] ∧
        interruptedOutcome.timeline = earlier.flatMap Attempt.samples ++ last.samples ∧
        x.probability = .one ∧ x.clockCycle = 100 ∧
        Timeline.IsFirstPeak last.samples x ∧ interruptedOutcome.timeline.IsFirstPeak x := by
  have ht : Timeline.IsNumeric [⟨0, .zero⟩] := by
    unfold Timeline.IsNumeric
    decide
  have hb : Timeline.IsNumeric [⟨100, .one⟩, ⟨101, .one⟩] := by
    unfold Timeline.IsNumeric
    decide
  have ho : interruptedOutcome.timeline.IsNumeric := by
    unfold Timeline.IsNumeric
    decide
  have hcontinuing : Convergence.ofTimeline [⟨0, .zero⟩] = .continuing := by decide +kernel
  have hexecute : interruptedRun.execute ⟨0, 0⟩ {} =
      (.ok interruptedOutcome, (interruptedRun.execute ⟨0, 0⟩ {}).2) :=
    Prod.fst_eq_iff.mp interruptedRun_execute
  obtain ⟨hdecides, hreports⟩ := saturation_decided_by_newest
  refine ⟨((hdecides _ _ ht hb).2.2 hcontinuing).2, ?_⟩
  exact hreports Machine interruptedRun ⟨0, 0⟩ {} _ interruptedOutcome 100 .one rfl ho hexecute rfl

end Run

end NoiseTimeline
