import Mathlib.Order.Nat
import NoiseTimeline.Proofs.Run.Answers
import NoiseTimeline.Proofs.Run.Inquiry
import NoiseTimeline.Proofs.Run.Success

/-! Simulations that differ in how far they may go. When the horizon moves on or more
windows may be skipped, the windows that were attempted before are attempted first. -/

namespace NoiseTimeline

variable {σ τ : Type}

/-- The outcomes may differ in the time that the runs took and in where they were stored. -/
structure RunOutcome.Agrees (o o' : RunOutcome) : Prop where
  stopReason : o.stopReason = o'.stopReason
  attempted : o.attempted = o'.attempted
  skipped : o.skipped = o'.skipped
  timeline : o.timeline = o'.timeline

namespace Run

theorem take_eq_take_of_isPrefix {as bs : List Attempt} {n : Nat} (hinitial : as <+: bs)
    (hn : n ≤ as.length) :
    as.take n = bs.take n := by
  rw [List.prefix_iff_eq_take.mp hinitial, List.take_take, Nat.min_eq_left hn]

section Ending

variable {r : Run σ} {as : List Attempt} {n : Nat} {reason : StopReason}

/-- After how many windows a simulation with such answers ends, and why. -/
inductive EndsWith (r : Run σ) (as : List Attempt) : Nat → StopReason → Prop
  | saturated {k clockCycle : Nat} {pMax : Binary64} (hk : IsLeast {k | r.StopsAt as k} k)
      (hsat : HasSaturated (as.take (k + 1)))
      (hconverged : Convergence.ofTimeline ((as.take (k + 1)).flatMap Attempt.samples) =
        .saturated pMax clockCycle) :
      EndsWith r as (k + 1) (.saturated clockCycle pMax)
  | givenUp {k : Nat} (hk : IsLeast {k | r.StopsAt as k} k)
      (hsat : ¬ HasSaturated (as.take (k + 1))) :
      EndsWith r as (k + 1) (.failureLimit (trailingSkips (as.take (k + 1))))
  | exhausted (hnever : ∀ k, ¬ r.StopsAt as k) : EndsWith r as as.length .horizonExhausted

/-- The outcome sums up the answers for the windows up to the last one attempted. -/
structure EndsIn (r : Run σ) (as : List Attempt) (o : RunOutcome) : Prop where
  ends : r.EndsWith as o.attempted o.stopReason
  skipped : o.skipped = (as.take o.attempted).countP fun a => a.Skipped
  timeline : o.timeline = (as.take o.attempted).flatMap Attempt.samples

theorem EndsWith.stops_or_all (h : r.EndsWith as n reason) :
    (∃ k, n = k + 1 ∧ r.StopsAt as k) ∨ n = as.length := by
  cases h with
  | saturated hk _ _ => exact Or.inl ⟨_, rfl, hk.1⟩
  | givenUp hk _ => exact Or.inl ⟨_, rfl, hk.1⟩
  | exhausted _ => exact Or.inr rfl

theorem EndsWith.le_length (h : r.EndsWith as n reason) : n ≤ as.length := by
  rcases h.stops_or_all with ⟨k, rfl, hstop⟩ | rfl
  · exact hstop.1
  · exact Nat.le_refl _

theorem EndsWith.le_of_stopsAt {k : Nat} (h : r.EndsWith as n reason)
    (hstop : r.StopsAt as k) : n ≤ k + 1 := by
  cases h with
  | saturated hk _ _ => exact Nat.succ_le_succ (hk.2 hstop)
  | givenUp hk _ => exact Nat.succ_le_succ (hk.2 hstop)
  | exhausted hnever => exact absurd hstop (hnever k)

end Ending

section Later

variable {q : Run τ} {r : Run σ} {as bs : List Attempt} {m n : Nat} {reason reason' : StopReason}
  (hlater : ∀ k < as.length, r.StopsAt bs k → q.StopsAt as k) (hq : q.EndsWith as m reason)
  (hr : r.EndsWith bs n reason')

include hlater hq hr

theorem EndsWith.le_of_later (hinitial : as <+: bs) : m ≤ n := by
  rcases hr.stops_or_all with ⟨k, rfl, hstop⟩ | rfl
  · by_cases hk : k < as.length
    · exact hq.le_of_stopsAt (hlater k hk hstop)
    · exact Nat.le_trans hq.le_length (Nat.le_trans (Nat.le_of_not_lt hk) (Nat.le_succ k))
  · exact Nat.le_trans hq.le_length hinitial.length_le

theorem EndsWith.eq_of_saturated {clockCycle : Nat} {pMax : Binary64} (hinitial : as <+: bs)
    (hreason : reason = .saturated clockCycle pMax) : m = n ∧ reason = reason' := by
  have hle := hq.le_of_later hlater hr hinitial
  cases hq with
  | givenUp hk _ => cases hreason
  | exhausted hnever => cases hreason
  | @saturated k _ _ hk hsat hconverged =>
    have hlt : k < as.length := hk.1.1
    rw [take_eq_take_of_isPrefix hinitial hlt] at hsat hconverged
    have hstop : r.StopsAt bs k := ⟨Nat.lt_of_lt_of_le hlt hinitial.length_le, Or.inl hsat⟩
    have hn : k + 1 = n := Nat.le_antisymm hle (hr.le_of_stopsAt hstop)
    -- Saturation comes first among the reasons, so the second run names it as well.
    refine ⟨hn, ?_⟩
    cases hr with
    | saturated _ _ hconverged' =>
      rw [← hn, hconverged] at hconverged'
      cases hconverged'
      rfl
    | givenUp _ hsat' =>
      rw [← hn] at hsat'
      exact absurd hsat hsat'
    | exhausted hnever => exact absurd hstop (hnever k)

theorem EndsWith.eq_of_exhausted (hsame : as = bs) (hreason : reason = .horizonExhausted) :
    m = n ∧ reason = reason' := by
  subst hsame
  cases hq with
  | saturated _ _ _ => cases hreason
  | givenUp _ _ => cases hreason
  | exhausted hnever =>
    rcases hr with ⟨hk, -, -⟩ | ⟨hk, -⟩ | -
    · exact absurd (hlater _ hk.1.1 hk.1) (hnever _)
    · exact absurd (hlater _ hk.1.1 hk.1) (hnever _)
    · exact ⟨rfl, rfl⟩

end Later

/-- A simulation by fixed rules that nothing keeps from ending with an outcome. -/
structure Proceeds (r : Run σ) (a : Answers) (elapsed : Elapsed) (s : σ) : Prop where
  simulates : r.mode = .simulate
  answers : r.collaborators.GivenBy a
  available : (r.collaborators.ensureAvailable s).1 = .ok ()
  renders : ∀ w ∈ r.planner.windows.head?, ∃ text, a.render (.ofWindow r.config w) = .ok text
  stored : ∀ e, (r.execute elapsed s).1 ≠ .error (.store e)

section Proceeds

variable {r : Run σ} {a : Answers} {elapsed : Elapsed} {s : σ} (h : r.Proceeds a elapsed s)
  (hnumbers : ∀ trace xs, a.parse trace = .ok xs → ∀ x ∈ xs, x.probability.isNaN = false)

include h

theorem Proceeds.head?_answers (e : RenderError) :
    (r.answers s).head? ≠ some (.renderFailed e) := by
  rw [Run.answers]
  rcases hwindows : r.planner.windows with _ | ⟨w, ws⟩
  · exact Option.some_ne_none _ ∘ Eq.symm
  · obtain ⟨text, htext⟩ := h.renders w (by rw [hwindows]; rfl)
    have hrender : (r.collaborators.render (.ofWindow r.config w) (r.opened s)).1 = .ok text :=
      (h.answers.render _ _).trans htext
    rw [course, List.head?_cons, visit_fst_of_render_ok (Prod.ext hrender rfl)]
    exact fun he => Attempt.ofModel_ne_renderFailed _ _ _ _ e (Option.some.inj he)

include hnumbers

theorem Proceeds.isNaN_answers :
    ∀ b ∈ r.answers s, ∀ x ∈ b.samples, x.probability.isNaN = false := by
  intro b hb
  obtain ⟨w, -, st, s', rfl⟩ := mem_course hb
  refine visit_samples (P := fun xs => ∀ x ∈ xs, x.probability.isNaN = false)
    (List.forall_mem_nil _) ?_ w st s'
  intro trace s'' xs hxs
  exact hnumbers trace xs ((h.answers.parse trace s'').symm.trans hxs)

theorem Proceeds.execute_eq :
    ∃ o s', r.execute elapsed s = (.ok o, s') ∧ r.EndsIn (r.answers s) o := by
  have hnan := h.isNaN_answers hnumbers
  have hends : ∃ n reason, r.EndsWith (r.answers s) n reason ∧ r.EndsAfter elapsed s n reason := by
    by_cases hstops : ∃ k, r.StopsAt (r.answers s) k
    · classical
      obtain ⟨k, hk⟩ : ∃ k, IsLeast {k | r.StopsAt (r.answers s) k} k :=
        ⟨_, Nat.isLeast_find hstops⟩
      by_cases hsat : HasSaturated ((r.answers s).take (k + 1))
      · obtain ⟨clockCycle, pMax, hafter, hconverged⟩ :=
          endsAfter_saturated h.simulates h.available h.head?_answers hnan h.stored hk hsat
        exact ⟨k + 1, _, .saturated hk hsat hconverged, hafter⟩
      · have hafter :=
          endsAfter_givenUp h.simulates h.available h.head?_answers hnan h.stored hk hsat
        exact ⟨k + 1, _, .givenUp hk hsat, hafter⟩
    · have hnever : ∀ k, ¬ r.StopsAt (r.answers s) k := fun k hk => hstops ⟨k, hk⟩
      have hafter := endsAfter_last h.simulates h.available h.head?_answers hnan h.stored hnever
      exact ⟨_, _, .exhausted hnever, hafter⟩
  obtain ⟨n, reason, hends, o, s', hexecute, -, rfl, rfl, hskipped, htimeline⟩ := hends
  exact ⟨o, s', hexecute, hends, hskipped, htimeline⟩

end Proceeds

section Outcomes

variable {q : Run τ} {r : Run σ} {as bs : List Attempt} {o o' : RunOutcome} (ho : q.EndsIn as o)
  (ho' : r.EndsIn bs o') (hinitial : as <+: bs)

include ho ho' hinitial

theorem EndsIn.timeline_isPrefix (hle : o.attempted ≤ o'.attempted) :
    o.timeline <+: o'.timeline := by
  have htake : as.take o.attempted <+: bs.take o'.attempted := by
    rw [take_eq_take_of_isPrefix hinitial ho.ends.le_length]
    exact List.take_prefix_take_left hle
  obtain ⟨rest, hrest⟩ := htake
  rw [ho.timeline, ho'.timeline, ← hrest, List.flatMap_append]
  exact List.prefix_append _ _

theorem EndsIn.agrees (hsame : o.attempted = o'.attempted ∧ o.stopReason = o'.stopReason) : o.Agrees
    o' := by
  have htake : as.take o.attempted = bs.take o'.attempted := by
    rw [take_eq_take_of_isPrefix hinitial ho.ends.le_length, hsame.1]
  refine ⟨hsame.2, hsame.1, ?_, ?_⟩
  · rw [ho.skipped, ho'.skipped, htake]
  · rw [ho.timeline, ho'.timeline, htake]

end Outcomes

section Bounds

variable {q : Run τ} {r : Run σ} {as bs : List Attempt} {k : Nat}

theorem stopsAt_of_bounded (hbounded : r.config.horizon ≠ none) (hinitial : as <+: bs)
    (hk : k < as.length) (h : r.StopsAt bs k) : q.StopsAt as k := by
  rcases h with ⟨-, hsat | ⟨hnone, -⟩⟩
  · rw [← take_eq_take_of_isPrefix hinitial hk] at hsat
    exact ⟨hk, Or.inl hsat⟩
  · exact absurd hnone hbounded

theorem stopsAt_of_failureLimit (hconfig : q.config = r.config)
    (hlimit : ∀ m ∈ r.failureLimit, ∃ n ∈ q.failureLimit, n ≤ m)
    (h : r.StopsAt as k) : q.StopsAt as k := by
  rcases h with ⟨hk, hsat | ⟨hnone, m, hm, hskips⟩⟩
  · exact ⟨hk, Or.inl hsat⟩
  · obtain ⟨n, hn, hnm⟩ := hlimit m hm
    exact ⟨hk, Or.inr ⟨hconfig ▸ hnone, n, hn, Nat.le_trans hnm hskips⟩⟩

end Bounds

/-- Two simulations by the same rules, whose results can be stored. If the first has a horizon that
ends a whole window and the second a later one, or if neither has one and the second may skip more
windows in a row, then the second begins as the first does, and they agree unless it was the bound
that ended the first. -/
theorem relaxed_simulation_appends {q : Run τ} {r : Run σ} {a : Answers}
    {elapsed elapsed' : Elapsed} {t : τ} {s : σ}
    (hnumbers : ∀ trace xs, a.parse trace = .ok xs → ∀ x ∈ xs, x.probability.isNaN = false)
    (hq : q.Proceeds a elapsed t) (hr : r.Proceeds a elapsed' s) :
    ∃ o t' o' s', q.execute elapsed t = (.ok o, t') ∧ r.execute elapsed' s = (.ok o', s') ∧
      (∀ last last', q.config = { r.config with horizon := some last } →
        r.config.horizon = some last' →
        last ≤ last' → last' ≤ lastCycle → r.config.width ∣ last + 1 →
        o.timeline <+: o'.timeline ∧
        ((∃ clockCycle pMax, o.stopReason = .saturated clockCycle pMax) → o.Agrees o')) ∧
      (q.config = r.config → r.config.horizon = none →
        (∀ m ∈ r.failureLimit, ∃ n ∈ q.failureLimit, n ≤ m) →
        q.requested elapsed t <+: r.requested elapsed' s ∧ o.timeline <+: o'.timeline ∧
        ((∀ skips, o.stopReason ≠ .failureLimit skips) → o.Agrees o')) := by
  obtain ⟨o, t', hexecute, ho⟩ := hq.execute_eq hnumbers
  obtain ⟨o', s', hexecute', ho'⟩ := hr.execute_eq hnumbers
  have hmode : q.mode = r.mode := hq.simulates.trans hr.simulates.symm
  refine ⟨o, t', o', s', hexecute, hexecute', ?_, ?_⟩
  · intro last last' hconfig hhorizon hle hlast' hwhole
    have hrequest : RenderRequest.ofWindow q.config = RenderRequest.ofWindow r.config := by
      rw [hconfig]; rfl
    have hwindows : q.planner.windows <+: r.planner.windows := by
      rw [planner, planner, hconfig, hhorizon]
      exact Planner.windows_isPrefix hwhole hle hlast'
    have hinitial := answers_isPrefix hq.answers hr.answers hmode hrequest hwindows t s
    have hbounded : r.config.horizon ≠ none := hhorizon ▸ Option.some_ne_none last'
    have hlater : ∀ k < (q.answers t).length, r.StopsAt (r.answers s) k →
        q.StopsAt (q.answers t) k :=
      fun k hk => stopsAt_of_bounded hbounded hinitial hk
    refine ⟨ho.timeline_isPrefix ho' hinitial (ho.ends.le_of_later hlater ho'.ends hinitial), ?_⟩
    rintro ⟨clockCycle, pMax, hreason⟩
    exact ho.agrees ho' hinitial (ho.ends.eq_of_saturated hlater ho'.ends hinitial hreason)
  · intro hconfig hhorizon hlimit
    have hrequest : RenderRequest.ofWindow q.config = RenderRequest.ofWindow r.config := by
      rw [hconfig]
    have hwindows : q.planner.windows = r.planner.windows := by rw [planner, planner, hconfig]
    have hinitial :=
      answers_isPrefix hq.answers hr.answers hmode hrequest (hwindows ▸ List.prefix_refl _) t s
    have hsame : q.answers t = r.answers s := by
      apply hinitial.eq_of_length
      rw [answers_length, answers_length, hwindows]
    have hlater : ∀ k < (q.answers t).length, r.StopsAt (r.answers s) k →
        q.StopsAt (q.answers t) k :=
      fun k _ hstop => stopsAt_of_failureLimit hconfig hlimit (hsame ▸ hstop)
    have hle := ho.ends.le_of_later hlater ho'.ends hinitial
    refine ⟨?_, ho.timeline_isPrefix ho' hinitial hle, ?_⟩
    · rw [(requested_of_execute_ok hexecute).1, (requested_of_execute_ok hexecute').1, hwindows]
      exact List.take_prefix_take_left hle
    · intro hneither
      have hagree : o.attempted = o'.attempted ∧ o.stopReason = o'.stopReason := by
        cases hreason : o.stopReason with
        | saturated clockCycle pMax =>
          exact hreason ▸ ho.ends.eq_of_saturated hlater ho'.ends hinitial hreason
        | failureLimit skips => exact absurd hreason (hneither skips)
        | horizonExhausted => exact hreason ▸ ho.ends.eq_of_exhausted hlater ho'.ends hsame hreason
      exact ho.agrees ho' hinitial hagree

/-- Its second window cannot be read, its third saturates, and those after it cannot be read
either. -/
def holedTable : List (String × List Sample) :=
  [("(0,49)", [⟨0, .zero⟩]), ("(100,149)", [⟨100, .one⟩])]

def holedRun (horizon failureLimit : Option Nat) : Run Machine where
  config := { size := 2, property := .irDrop, horizon := horizon }
  mode := .simulate
  failureLimit := failureLimit
  resultDir := "r"
  collaborators := .reciting holedTable
  host := Machine.host

def holedOutcome (horizon : Option Nat) (reason : StopReason) (attempted : Nat)
    (timeline : Timeline) : RunOutcome :=
  ⟨.simulate, reason, attempted, 1, timeline, ⟨0, 0⟩, .within "r" (holedRun horizon none).config⟩

theorem holedRun_ends {horizon failureLimit : Option Nat} {reason : StopReason} {attempted : Nat}
    {timeline : Timeline} (hhorizon : ∀ last ∈ horizon, last < wordLimit)
    (hlast : let last := ((holedRun horizon failureLimit).conducted {}).1
      (last.1, last.2.attempted, last.2.skipped, last.2.timeline) =
        (reason, attempted, 1, timeline)) :
    ((holedRun horizon failureLimit).execute ⟨0, 0⟩ {}).1 =
      .ok (holedOutcome horizon reason attempted timeline) := by
  have hvalid : (holedRun horizon failureLimit).config.IsValid :=
    ⟨rfl, hhorizon, (by decide : 2 < halfWordLimit), (by decide : 1 < halfWordLimit)⟩
  have hstarts : (holedRun horizon failureLimit).Starts {} :=
    ⟨not_isUnboundedCheck rfl, rfl, _, rfl⟩
  exact hstarts.outcome_of_room hvalid rfl (Collaborators.preserves_reciting holedTable _)
    (Machine.hasRoom_empty _) hlast

theorem holedRun_execute :
    ((holedRun (some 149) none).execute ⟨0, 0⟩ {}).1 =
      .ok (holedOutcome (some 149) (.saturated 100 .one) 3 [⟨0, .zero⟩, ⟨100, .one⟩]) ∧
    ((holedRun (some 230) none).execute ⟨0, 0⟩ {}).1 =
      .ok (holedOutcome (some 230) (.saturated 100 .one) 3 [⟨0, .zero⟩, ⟨100, .one⟩]) ∧
    ((holedRun none (some 1)).execute ⟨0, 0⟩ {}).1 =
      .ok (holedOutcome none (.failureLimit 1) 2 [⟨0, .zero⟩]) ∧
    ((holedRun none (some 2)).execute ⟨0, 0⟩ {}).1 =
      .ok (holedOutcome none (.saturated 100 .one) 3 [⟨0, .zero⟩, ⟨100, .one⟩]) :=
  ⟨holedRun_ends (by decide) (by decide +kernel), holedRun_ends (by decide) (by decide +kernel),
    holedRun_ends (by decide) (by decide +kernel), holedRun_ends (by decide) (by decide +kernel)⟩

theorem holedRun_proceeds {horizon failureLimit : Option Nat} {o : RunOutcome}
    (h : ((holedRun horizon failureLimit).execute ⟨0, 0⟩ {}).1 = .ok o) :
    (holedRun horizon failureLimit).Proceeds (.reciting holedTable) ⟨0, 0⟩ {} where
  simulates := rfl
  answers := Collaborators.reciting_givenBy holedTable
  available := rfl
  renders w _ := ⟨w.text, rfl⟩
  stored _ he := nomatch h.symm.trans he

theorem isNaN_holedTable (trace : String) (xs : List Sample)
    (h : (Answers.reciting holedTable).parse trace = .ok xs) :
    ∀ x ∈ xs, x.probability.isNaN = false := by
  have hknown : ∀ entry ∈ holedTable, ∀ x ∈ entry.2, x.probability.isNaN = false := by
    decide
  rcases hlookup : holedTable.lookup trace with _ | samples
  · simp [Answers.reciting, hlookup] at h
  · obtain rfl : samples = xs := by simpa [Answers.reciting, hlookup] using h
    obtain ⟨before, after, hsplit, -⟩ := List.lookup_eq_some_iff.mp hlookup
    exact hknown (trace, samples) (by simp [hsplit])

theorem holedRun_appends :
    (holedOutcome (some 149) (.saturated 100 .one) 3 [⟨0, .zero⟩, ⟨100, .one⟩]).Agrees
      (holedOutcome (some 230) (.saturated 100 .one) 3 [⟨0, .zero⟩, ⟨100, .one⟩]) ∧
    (holedRun none (some 1)).requested ⟨0, 0⟩ {} <+: (holedRun none (some 2)).requested ⟨0, 0⟩ {} ∧
    (holedOutcome none (.failureLimit 1) 2 [⟨0, .zero⟩]).timeline <+:
      (holedOutcome none (.saturated 100 .one) 3 [⟨0, .zero⟩, ⟨100, .one⟩]).timeline := by
  obtain ⟨hnear, hfar, hfew, hmore⟩ := holedRun_execute
  have hanswer : ∀ {r : Run Machine} {o o' : RunOutcome} {s' : Machine},
      (r.execute ⟨0, 0⟩ {}).1 = .ok o → r.execute ⟨0, 0⟩ {} = (.ok o', s') → o' = o := by
    intro r o o' s' h h'
    rw [h'] at h
    exact Except.ok.inj h
  constructor
  · obtain ⟨o, t', o', s', ho, ho', happends, -⟩ :=
      relaxed_simulation_appends isNaN_holedTable (holedRun_proceeds hnear) (holedRun_proceeds hfar)
    obtain rfl := hanswer hnear ho
    obtain rfl := hanswer hfar ho'
    exact (happends 149 230 rfl rfl (by decide) (by decide) (by decide)).2 ⟨100, .one, rfl⟩
  · obtain ⟨o, t', o', s', ho, ho', -, happends⟩ :=
      relaxed_simulation_appends isNaN_holedTable (holedRun_proceeds hfew) (holedRun_proceeds hmore)
    obtain rfl := hanswer hfew ho
    obtain rfl := hanswer hmore ho'
    obtain ⟨hrequested, htimeline, -⟩ := happends rfl rfl fun m hm => ⟨1, rfl, by cases hm; decide⟩
    exact ⟨hrequested, htimeline⟩

end Run

end NoiseTimeline
