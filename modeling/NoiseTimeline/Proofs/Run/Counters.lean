import Mathlib.Data.List.TakeWhile
import NoiseTimeline.Proofs.Run.Failure
import NoiseTimeline.Proofs.Window.Partition

/-! A run in the arithmetic of its counters, which is aborted where a sum is out of
their range. Only the count of windows and the count of windows skipped in a row can get there. -/

namespace NoiseTimeline

namespace RunState

/-- The counters can hold the counts. The one for skips in a row has half as many bits as the
others. -/
structure InCounters (st : RunState) : Prop where
  attempted : st.attempted < wordLimit
  skipped : st.skipped < wordLimit
  consecutiveSkips : st.consecutiveSkips < halfWordLimit

variable {st : RunState} {as : List Attempt}

theorem inCounters_iff :
    st.InCounters ↔ st.attempted < wordLimit ∧ st.skipped < wordLimit ∧
    st.consecutiveSkips < halfWordLimit :=
  ⟨fun h => ⟨h.attempted, h.skipped, h.consecutiveSkips⟩, fun h => ⟨h.1, h.2.1, h.2.2⟩⟩

instance : Decidable st.InCounters := decidable_of_iff' _ inCounters_iff

theorem Counts.inCounters_iff (h : st.Counts as) :
    st.InCounters ↔ as.length < wordLimit ∧ trailingSkips as < halfWordLimit := by
  have hle : as.countP (fun a => a.Skipped) ≤ as.length := List.countP_le_length
  rw [RunState.inCounters_iff, h.attempted, h.skipped, h.consecutiveSkips]
  constructor
  · rintro ⟨hattempted, -, htrailing⟩
    exact ⟨hattempted, htrailing⟩
  · rintro ⟨hattempted, htrailing⟩
    exact ⟨hattempted, Nat.lt_of_le_of_lt hle hattempted, htrailing⟩

end RunState

/-- Somewhere in the list, `n` attempts one after the other were skipped. -/
def SkipsInARow (n : Nat) (as : List Attempt) : Prop :=
  ∃ row, row <:+: as ∧ row.length = n ∧ ∀ a ∈ row, a.isSkipped = true

theorem le_trailingSkips_iff {n : Nat} {as : List Attempt} :
    n ≤ trailingSkips as ↔ ∃ row, row <:+ as ∧ row.length = n ∧ ∀ a ∈ row, a.isSkipped = true := by
  rw [trailingSkips_eq]
  constructor
  · intro h
    -- The last `n` attempts, read from the end, begin the longest row of skips there.
    have hprefix : (as.reverse.takeWhile Attempt.isSkipped).take n <+: as.reverse :=
      (List.take_prefix _ _).trans (List.takeWhile_prefix _)
    refine ⟨((as.reverse.takeWhile Attempt.isSkipped).take n).reverse, ?_, ?_, ?_⟩
    · rw [← List.reverse_prefix, List.reverse_reverse]
      exact hprefix
    · rw [List.length_reverse, List.length_take_of_le h]
    · intro a ha
      exact List.mem_takeWhile_imp (List.mem_of_mem_take (List.mem_reverse.mp ha))
  · rintro ⟨row, ⟨before, rfl⟩, rfl, hrow⟩
    rw [List.reverse_append,
      List.takeWhile_append_of_pos fun a ha => hrow a (List.mem_reverse.mp ha), List.length_append,
      List.length_reverse]
    exact Nat.le_add_right _ _

theorem skipsInARow_iff {n : Nat} (hn : 0 < n) {as : List Attempt} :
    SkipsInARow n as ↔ ∃ k < as.length, n ≤ trailingSkips (as.take (k + 1)) := by
  constructor
  · rintro ⟨row, hinfix, hlength, hrow⟩
    obtain ⟨start, hsuffix, hprefix⟩ := List.infix_iff_suffix_prefix.mp hinfix
    have hle := hsuffix.length_le
    have hpos : start.length - 1 + 1 = start.length := by omega
    refine ⟨start.length - 1, by have := hprefix.length_le; omega, ?_⟩
    rw [hpos, ← List.prefix_iff_eq_take.mp hprefix]
    exact le_trailingSkips_iff.mpr ⟨row, hsuffix, hlength, hrow⟩
  · rintro ⟨k, -, htrailing⟩
    obtain ⟨row, hsuffix, hlength, hrow⟩ := le_trailingSkips_iff.mp htrailing
    exact ⟨row, hsuffix.isInfix.trans (List.take_prefix _ _).isInfix, hlength, hrow⟩

/-- There are more attempts, or more skips in a row, than the counters can hold. -/
def OutgrowsCounters (as : List Attempt) : Prop :=
  wordLimit ≤ as.length ∨ SkipsInARow halfWordLimit as

/-- The counts of some first part of the list are out of range. -/
theorem outgrowsCounters_iff {as : List Attempt} :
    OutgrowsCounters as ↔
      ∃ k < as.length, ¬ ((as.take (k + 1)).length < wordLimit ∧
        trailingSkips (as.take (k + 1)) < halfWordLimit) := by
  have hpos : 0 < wordLimit := by decide
  rw [OutgrowsCounters, skipsInARow_iff (by decide)]
  constructor
  · rintro (hlength | ⟨k, hk, htrailing⟩)
    · refine ⟨wordLimit - 1, by omega, fun h => ?_⟩
      rw [Nat.sub_add_cancel hpos, List.length_take_of_le hlength] at h
      exact Nat.lt_irrefl _ h.1
    · exact ⟨k, hk, fun h => Nat.not_lt.mpr htrailing h.2⟩
  · rintro ⟨k, hk, hover⟩
    by_cases hlength : (as.take (k + 1)).length < wordLimit
    · exact Or.inr ⟨k, hk, Nat.not_lt.mp fun h => hover ⟨hlength, h⟩⟩
    · exact Or.inl (Nat.le_trans (Nat.not_lt.mp hlength) (List.length_take_le' _ _))

namespace Run

variable {σ : Type} {r : Run σ} {elapsed : Elapsed} {s s' : σ} {ws : List Window} {st : RunState}

/-- The loop in the arithmetic of the counters. It is aborted where a window's sums are out of
range. -/
def wordWindows? (r : Run σ) :
    Nat → Planner → RunState → σ → Option (Except RunError (StopReason × RunState) × σ)
  | 0, _, st, s => some (.ok (.horizonExhausted, st), s)
  | count + 1, p, st, s =>
    match p.next with
    | (none, _) => some (.ok (.horizonExhausted, st), s)
    | (some w, p) =>
      match r.attempt w st s with
      | (.error e, s) => some (.error e, s)
      | (.ok st, s) =>
        if st.InCounters then
          match r.stopReason? st with
          | some reason =>
            let entries := stopEntries reason
            some (.ok (reason, st.note entries), r.present entries s)
          | none => wordWindows? r count p st s
        else none

/-- The whole run in the arithmetic of the counters. -/
def wordExecute? (r : Run σ) (elapsed : Elapsed) (s : σ) :
    Option (Except RunError RunOutcome × σ) :=
  if r.mode = .check ∧ r.config.horizon = none then some (.error .unboundedCheck, s)
  else
    match r.collaborators.ensureAvailable s with
    | (.error e, s) => some (.error (.precondition e), s)
    | (.ok (), s) =>
      let opening := r.openingEntries
      let s := r.present opening s
      (r.wordWindows? r.planner.remaining r.planner (RunState.note {} opening) s).map fun
        | (.error e, s) => (.error e, s)
        | (.ok (reason, st), s) => r.conclude elapsed reason st s

/-- The same loop over windows that are listed beforehand. -/
def wordFollow? (r : Run σ) :
    List Window → RunState → σ → Option (Except RunError (StopReason × RunState) × σ)
  | [], st, s => some (.ok (.horizonExhausted, st), s)
  | w :: ws, st, s =>
    match r.attempt w st s with
    | (.error e, s) => some (.error e, s)
    | (.ok st, s) =>
      if st.InCounters then
        match r.stopReason? st with
        | some reason =>
          let entries := stopEntries reason
          some (.ok (reason, st.note entries), r.present entries s)
        | none => wordFollow? r ws st s
      else none

theorem wordWindows?_eq_wordFollow? (r : Run σ) (n : Nat) (p : Planner) (st : RunState) (s : σ) :
    r.wordWindows? n p st s = r.wordFollow? (p.upTo n) st s := by
  induction n generalizing p st s with
  | zero => rfl
  | succ n ih =>
    rcases hnext : p.next with ⟨next, p'⟩
    rw [wordWindows?, Planner.upTo, hnext]
    cases next with
    | none => rfl
    | some w =>
      dsimp only
      rw [wordFollow?]
      obtain ⟨answer, s'⟩ := r.attempt w st s
      cases answer with
      | error e => rfl
      | ok st' =>
        dsimp only
        congr 1
        cases r.stopReason? st' with
        | some reason => rfl
        | none => exact ih p' st' s'

theorem wordFollow?_eq_none_or (r : Run σ) (ws : List Window) (st : RunState) (s : σ) :
    r.wordFollow? ws st s = none ∨ r.wordFollow? ws st s = some (r.follow ws st s) := by
  induction ws generalizing st s with
  | nil => exact Or.inr rfl
  | cons w ws ih =>
    rw [wordFollow?, follow]
    obtain ⟨answer, s'⟩ := r.attempt w st s
    cases answer with
    | error e => exact Or.inr rfl
    | ok st' =>
      dsimp only
      by_cases hfits : st'.InCounters
      · rw [if_pos hfits]
        cases r.stopReason? st' with
        | some reason => exact Or.inr rfl
        | none => exact ih st' s'
      · exact Or.inl (if_neg hfits)

/-- The loop is aborted just if the counts do not fit after one of the windows that it goes through
without limits. -/
theorem wordFollow?_eq_none_iff {n : Nat} {reason : StopReason} (hopens : r.Opens ws st s)
    (h : r.HaltsAfter ws st s n reason) :
    r.wordFollow? ws st s = none ↔ ∃ k < n, ¬ (r.course (ws.take (k + 1)) st s).2.1.InCounters := by
  induction ws generalizing st s n with
  | nil =>
    obtain rfl : n = 0 := Nat.le_zero.mp h.le_length
    simp [wordFollow?]
  | cons w ws ih =>
    rw [wordFollow?, attempt_of_opens hopens]
    dsimp only
    by_cases hfits : (r.visit w st s).2.1.InCounters
    · rw [if_pos hfits]
      cases hreason : r.stopReason? (r.visit w st s).2.1 with
      | some first =>
        have hone : n ≤ 1 := Nat.le_of_not_lt fun hlt => by
          have hnone : r.stopReason? (r.visit w st s).2.1 = none := h.goesOn 0 hlt
          rw [hnone] at hreason
          cases hreason
        refine iff_of_false (Option.some_ne_none _) ?_
        rintro ⟨k, hk, hover⟩
        obtain rfl : k = 0 := by omega
        exact hover hfits
      | none =>
        obtain ⟨m, rfl, hrest⟩ := h.of_cons hreason
        dsimp only
        rw [ih (opens_after_visit r w ws st s) hrest]
        constructor
        · rintro ⟨k, hk, hover⟩
          exact ⟨k + 1, Nat.succ_lt_succ hk, hover⟩
        · rintro ⟨k, hk, hover⟩
          cases k with
          | zero => exact absurd hfits hover
          | succ k => exact ⟨k, Nat.lt_of_succ_lt_succ hk, hover⟩
    · rw [if_neg hfits]
      exact iff_of_true rfl ⟨0, h.pos, hfits⟩

theorem wordExecute?_eq_map (hbounded : ¬ r.IsUnboundedCheck)
    (havailable : (r.collaborators.ensureAvailable s).1 = .ok ()) :
    r.wordExecute? elapsed s = (r.wordFollow? r.planner.windows r.opening (r.opened s)).map fun
      | (.error e, s) => (.error e, s)
      | (.ok (reason, st), s) => r.conclude elapsed reason st s := by
  have hpair : r.collaborators.ensureAvailable s =
      (.ok (), (r.collaborators.ensureAvailable s).2) :=
    Prod.ext havailable rfl
  rw [IsUnboundedCheck] at hbounded
  rw [wordExecute?, if_neg hbounded, hpair]
  dsimp only
  rw [wordWindows?_eq_wordFollow?]
  rfl

theorem FailsEarly.wordExecute?_eq {e : RunError} {deeds : List Deed} (hc : r.config.IsValid)
    (h : r.FailsEarly s e deeds s') : r.wordExecute? elapsed s = some (.error e, s') := by
  cases h with
  | unboundedCheck h =>
    rw [IsUnboundedCheck] at h
    rw [wordExecute?, if_pos h]
  | precondition hbounded h =>
    rw [IsUnboundedCheck] at hbounded
    rw [wordExecute?, if_neg hbounded, h]
  | render hbounded havailable h =>
    rw [firstRendering] at h
    rw [wordExecute?_eq_map hbounded havailable, windows_eq_cons hc, wordFollow?,
      attempt_of_render_error h rfl]
    rfl

theorem wordExecute?_eq_none_or (hc : r.config.IsValid) (elapsed : Elapsed) (s : σ) :
    r.wordExecute? elapsed s = none ∨ r.wordExecute? elapsed s = some (r.execute elapsed s) := by
  rcases r.starts_or_failsEarly s with hstarts | ⟨e, deeds, s', hearly⟩
  · rw [wordExecute?_eq_map hstarts.bounded hstarts.available,
      execute_eq_follow hstarts.bounded hstarts.available]
    rcases r.wordFollow?_eq_none_or r.planner.windows r.opening (r.opened s) with hnone | hsome
    · exact Or.inl (by rw [hnone, Option.map_none])
    · refine Or.inr ?_
      rw [hsome]
      rfl
  · exact Or.inr (by rw [hearly.wordExecute?_eq hc, hearly.execute_eq hc])

/-- What becomes of the windows that a run visits if its counters have no limit. -/
def attempts (r : Run σ) (s : σ) : List Attempt := (r.answers s).take (r.conducted s).1.2.attempted

theorem attempts_length_le (r : Run σ) (s : σ) :
    (r.attempts s).length ≤ r.planner.windows.length := by
  rw [← answers_length r s]
  exact List.length_take_le' _ _

theorem Starts.wordExecute?_eq_none_iff (hc : r.config.IsValid) (h : r.Starts s) :
    r.wordExecute? elapsed s = none ↔ OutgrowsCounters (r.attempts s) := by
  obtain ⟨n, reason, hhalts, -, hattempted⟩ := r.conducted_haltsAfter s
  have hn : n ≤ (r.answers s).length := answers_length r s ▸ hhalts.le_length
  rw [wordExecute?_eq_map h.bounded h.available, Option.map_eq_none_iff,
    wordFollow?_eq_none_iff (h.opens hc) hhalts, outgrowsCounters_iff, attempts, hattempted,
    List.length_take_of_le hn]
  refine exists_congr fun k => and_congr_right fun hk => not_congr ?_
  rw [List.take_take, Nat.min_eq_left hk]
  exact (after_counts r (k + 1) s).inCounters_iff

theorem wordExecute?_eq_none_iff (hc : r.config.IsValid) (elapsed : Elapsed) (s : σ) :
    r.wordExecute? elapsed s = none ↔ r.Starts s ∧ OutgrowsCounters (r.attempts s) := by
  rcases r.starts_or_failsEarly s with hstarts | ⟨e, deeds, s', hearly⟩
  · rw [hstarts.wordExecute?_eq_none_iff hc, and_iff_right hstarts]
  · rw [hearly.wordExecute?_eq hc]
    exact iff_of_false (Option.some_ne_none _) fun h => hearly.not_starts h.1

theorem width_eq_one_of_attempts (hc : r.config.IsValid) (h : wordLimit ≤ (r.attempts s).length) :
    r.config.width = 1 ∧ r.config.lastCovered = lastCycle := by
  have hlength := Nat.le_trans h (r.attempts_length_le s)
  have hlast := hc.lastCovered_le
  have hlimit : wordLimit = lastCycle + 1 := rfl
  rw [windows_eq hc, List.length_map, List.length_range, hlimit] at hlength
  have hmul := Nat.div_mul_le_self r.config.lastCovered r.config.width
  have hwhole : lastCycle * r.config.width ≤ lastCycle * 1 := by
    rw [Nat.mul_one]
    exact Nat.le_trans (Nat.mul_le_mul_right _ (Nat.le_of_succ_le_succ hlength))
      (Nat.le_trans hmul hlast)
  have hpos := hc.width_pos
  have hwidth : r.config.width ≤ 1 := Nat.le_of_mul_le_mul_left hwhole (by decide)
  have hself : r.config.lastCovered / r.config.width ≤ r.config.lastCovered := Nat.div_le_self _ _
  exact ⟨by omega, by omega⟩

theorem trailingSkips_lt {limit : Nat} {as : List Attempt} (hmode : r.mode = .simulate)
    (hhorizon : r.config.horizon = none) (hlimit : r.failureLimit = some limit) (hc : st.Counts as)
    (h : r.stopReason? st = none) : trailingSkips as < limit := by
  rw [stopReason?, hmode] at h
  dsimp only at h
  split at h
  · cases h
  · rw [hlimit, hhorizon] at h
    dsimp only at h
    split at h
    · cases h
    · rename_i hfewer
      rw [← hc.consecutiveSkips]
      exact Nat.not_le.mp hfewer

/-- The limit on skips in a row ends an unbounded simulation before their count gets out of
range. -/
theorem failureLimit_of_skipsInARow (hlimit : ∀ n ∈ r.failureLimit, n < halfWordLimit)
    (hmode : r.mode = .simulate) (hhorizon : r.config.horizon = none)
    (h : SkipsInARow halfWordLimit (r.attempts s)) : r.failureLimit = none := by
  obtain ⟨n, reason, hhalts, -, hattempted⟩ := r.conducted_haltsAfter s
  rw [attempts, hattempted, skipsInARow_iff (by decide)] at h
  obtain ⟨k, hk, hskips⟩ := h
  have hkn : k < n := Nat.lt_of_lt_of_le hk (List.length_take_le _ _)
  have hka : k < (r.answers s).length := Nat.lt_of_lt_of_le hk (List.length_take_le' _ _)
  have htwo : 2 ≤ halfWordLimit := by decide
  rw [List.take_take, Nat.min_eq_left hkn, List.take_succ_eq_append_getElem hka,
    trailingSkips_concat] at hskips
  split at hskips
  · have hpos : k ≠ 0 := by
      rintro rfl
      have hzero : trailingSkips ((r.answers s).take 0) = 0 := rfl
      omega
    obtain ⟨j, rfl⟩ : ∃ j, k = j + 1 := ⟨k - 1, by omega⟩
    cases hfailure : r.failureLimit with
    | none => rfl
    | some limit =>
      have hfewer :=
        trailingSkips_lt hmode hhorizon hfailure (after_counts r (j + 1) s) (hhalts.goesOn j hkn)
      have hfits := hlimit limit (Option.mem_def.mpr hfailure)
      omega
  · omega

/-- A run in the arithmetic of its counters is aborted just if it visits more windows, or skips more
of them in a row, than they can hold; otherwise it is the run with counters that have no limit. The
first takes windows of one clock cycle up to the last there is. The second takes a row of skips that
nothing ends: there is a horizon, or no limit on skips. -/
theorem aborted_exactly_when_outgrown (hc : r.config.IsValid)
    (hlimit : ∀ n ∈ r.failureLimit, n < halfWordLimit) (elapsed : Elapsed) (s : σ) :
    (r.wordExecute? elapsed s = none ↔ r.Starts s ∧ OutgrowsCounters (r.attempts s)) ∧
    (∀ result, r.wordExecute? elapsed s = some result → result = r.execute elapsed s) ∧
    (r.wordExecute? elapsed s = none →
      r.config.width = 1 ∧ r.config.lastCovered = lastCycle ∨
      halfWordLimit ≤ r.planner.windows.length ∧
      (r.config.horizon ≠ none ∨ r.failureLimit = none)) := by
  have hiff := wordExecute?_eq_none_iff hc elapsed s
  refine ⟨hiff, ?_, ?_⟩
  · intro result hresult
    rcases wordExecute?_eq_none_or hc elapsed s with hnone | hsome
    · cases hnone.symm.trans hresult
    · exact Option.some.inj (hresult.symm.trans hsome)
  · intro hnone
    obtain ⟨hstarts, hmany | hrow⟩ := hiff.mp hnone
    · exact Or.inl (width_eq_one_of_attempts hc hmany)
    · refine Or.inr ⟨?_, ?_⟩
      · obtain ⟨row, hinfix, hlength, -⟩ := hrow
        rw [← hlength]
        exact Nat.le_trans hinfix.length_le (r.attempts_length_le s)
      · by_cases hhorizon : r.config.horizon = none
        · right
          refine failureLimit_of_skipsInARow hlimit ?_ hhorizon hrow
          cases hmode : r.mode with
          | simulate => rfl
          | check => exact absurd ⟨hmode, hhorizon⟩ hstarts.bounded
        · exact Or.inl hhorizon

theorem interruptedRun_not_aborted :
    interruptedRun.wordExecute? ⟨0, 0⟩ {} = some (interruptedRun.execute ⟨0, 0⟩ {}) := by
  have hc : interruptedRun.config.IsValid := ⟨by decide, by decide, by decide, by decide⟩
  obtain ⟨-, hresult, hnone⟩ := aborted_exactly_when_outgrown hc (by decide) ⟨0, 0⟩ {}
  cases h : interruptedRun.wordExecute? ⟨0, 0⟩ {} with
  | some result => rw [hresult result h]
  | none =>
    exfalso
    rcases hnone h with ⟨hwidth, -⟩ | ⟨hmany, -⟩
    · exact absurd hwidth (by decide)
    · rw [← answers_length interruptedRun {}, interruptedRun_answers] at hmany
      exact absurd hmany (by decide)

theorem attempts_eq_answers (hmode : r.mode = .simulate) (hhorizon : r.config.horizon ≠ none)
    (hempty : ∀ a ∈ r.answers s, a.samples = []) : r.attempts s = r.answers s := by
  obtain ⟨n, reason, hhalts, -, hattempted⟩ := r.conducted_haltsAfter s
  rw [attempts, hattempted]
  rcases hhalts.stops with ⟨hn, -⟩ | ⟨hpos, hstop⟩
  · rw [hn, ← answers_length r s, List.take_length]
  · exfalso
    have hnone : r.stopReason? (r.after n s).1 = none := by
      refine stopReason?_eq_none hmode (after_counts r n s) ?_ ?_ fun hup => hhorizon hup.1
      · intro a ha x hx
        rw [hempty a (List.mem_of_mem_take ha)] at hx
        cases hx
      · rintro ⟨a, ha, x, hx, -⟩
        rw [hempty a (List.mem_of_mem_take ha)] at hx
        cases hx
    cases hnone.symm.trans hstop

theorem answers_of_reciting_nil {r : Run Machine} {s : Machine} {a : Attempt}
    (hmode : r.mode = .simulate) (h : r.collaborators = .reciting []) (ha : a ∈ r.answers s) :
    a.isSkipped = true ∧ a.samples = [] := by
  obtain ⟨w, -, st, s', rfl⟩ := mem_course ha
  have hrender : r.collaborators.render (.ofWindow r.config w) s' =
      (.ok (RenderRequest.ofWindow r.config w).window.text, s') := by
    rw [h]
    rfl
  rw [visit_fst_of_render_ok hrender, h, hmode]
  exact ⟨rfl, rfl⟩

/-- It has as many windows as the counter of skips in a row has values, and none of them can be
read. -/
def tirelessRun : Run Machine where
  config := { size := 2, property := .irDrop, horizon := some (halfWordLimit - 1), blockSize := 1 }
  mode := .simulate
  resultDir := "r"
  collaborators := .reciting []
  host := Machine.host

theorem tirelessRun_is_aborted : tirelessRun.config.IsValid ∧ tirelessRun.Starts {} ∧
    tirelessRun.wordExecute? ⟨0, 0⟩ {} = none := by
  have hc : tirelessRun.config.IsValid := ⟨by decide, by decide, by decide, by decide⟩
  have hstarts : tirelessRun.Starts {} := ⟨not_isUnboundedCheck rfl, rfl, _, rfl⟩
  have hanswers : ∀ a ∈ tirelessRun.answers {}, a.isSkipped = true ∧ a.samples = [] := fun a =>
    answers_of_reciting_nil rfl rfl
  have hcount : tirelessRun.config.lastCovered / tirelessRun.config.width + 1 = halfWordLimit := by
    decide
  have hlength : (tirelessRun.answers {}).length = halfWordLimit := by
    rw [answers_length, windows_eq hc, List.length_map, List.length_range, hcount]
  refine ⟨hc, hstarts,
    (wordExecute?_eq_none_iff hc _ _).mpr
      ⟨hstarts, Or.inr ⟨tirelessRun.answers {}, ?_, hlength, ?_⟩⟩⟩
  · have hall : tirelessRun.attempts {} = tirelessRun.answers {} :=
      attempts_eq_answers rfl (by decide) fun a ha => (hanswers a ha).2
    exact hall ▸ List.infix_rfl
  · exact fun a ha => (hanswers a ha).1

end Run

end NoiseTimeline
