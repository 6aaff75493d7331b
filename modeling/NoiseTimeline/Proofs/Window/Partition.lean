import Mathlib.Data.Nat.Basic
import Mathlib.Logic.ExistsUnique
import NoiseTimeline.Proofs.Window

/-! The windows of a planner partition the cycles up to its last one. It gives them one
after the other and then no more, and no number on the way leaves the counter's range. -/

namespace NoiseTimeline

namespace Window

variable {width last k c : Nat}

/-- The window number `k` when the cycles up to `last` are cut into windows of one width. -/
def cut (width last k : Nat) : Window := ⟨k * width, min (k * width + (width - 1)) last⟩

theorem contains_cut_iff (hw : 0 < width) (hc : c ≤ last) :
    (cut width last k).contains c = true ↔ c / width = k := by
  rw [Nat.div_eq_iff hw, contains, cut]
  simp only [Bool.and_eq_true, decide_eq_true_eq]
  omega

theorem existsUnique_cut (hw : 0 < width) (hc : c ≤ last) :
    ∃! k, k < last / width + 1 ∧ (cut width last k).contains c = true := by
  refine ⟨c / width,
    ⟨Nat.lt_succ_of_le (Nat.div_le_div_right hc), (contains_cut_iff hw hc).mpr rfl⟩, ?_⟩
  rintro k ⟨-, hk⟩
  exact ((contains_cut_iff hw hc).mp hk).symm

theorem width?_cut (hw : 0 < width) (hfits : width ≤ lastCycle) (hk : k < last / width + 1) :
    ∃ n, (cut width last k).width? = some n ∧ n ≤ width ∧ (k < last / width → n = width) := by
  have hstart : k * width ≤ last := (Nat.le_div_iff_mul_le hw).mp (Nat.le_of_lt_succ hk)
  have hwhole : k < last / width → (k + 1) * width ≤ last := (Nat.le_div_iff_mul_le hw).mp
  rw [Nat.succ_mul] at hwhole
  have hordered : k * width ≤ min (k * width + (width - 1)) last ∧
      min (k * width + (width - 1)) last - k * width < lastCycle := by omega
  refine ⟨_, if_pos hordered, ?_, ?_⟩
  · dsimp only [cut]
    omega
  · intro hmore
    have hroom := hwhole hmore
    dsimp only [cut]
    omega

end Window

namespace Planner

variable {p p' : Planner} {w : Window}

/-- The number, if the counter can hold it. -/
def word? (n : Nat) : Option Nat := if n < wordLimit then some n else none

/-- The difference, if it is not below zero. -/
def difference? (m n : Nat) : Option Nat := if n ≤ m then some (m - n) else none

/-- The step in the counter's arithmetic. It fails where a difference or a window's bounds would be
refused; a sum out of range is the last cycle as a bound, and as the next cursor it is none. -/
def wordNext? (p : Planner) : Option (Option Window × Planner) :=
  match p.cursor with
  | none => some (none, p)
  | some lower =>
    if p.horizon.any (· < lower) then some (none, { p with cursor := none })
    else
      (difference? p.width 1).bind fun reach =>
        let reached := (word? (lower + reach)).getD lastCycle
        let upper := p.horizon.elim reached (min reached)
        (Window.new? lower upper).map fun w => (some w, { p with cursor := word? (upper + 1) })

/-- The counter can hold every number of the planner. -/
structure InRange (p : Planner) : Prop where
  width_pos : 0 < p.width
  width_le : p.width ≤ lastCycle
  last_le : p.last ≤ lastCycle
  cursor_le : ∀ lower ∈ p.cursor, lower ≤ lastCycle

theorem getD_word? (n : Nat) : (word? n).getD lastCycle = min n lastCycle := by
  unfold word? lastCycle
  split
  · rw [Option.getD_some]
    omega
  · rw [Option.getD_none]
    omega

theorem word?_succ (n : Nat) : word? (n + 1) = if n < lastCycle then some (n + 1) else none := by
  have hlimit : n + 1 < wordLimit ↔ n < lastCycle := by
    unfold lastCycle
    omega
  simp only [word?, hlimit]

/-- No difference is below zero, no bounds are out of order and no sum out of range is lost. -/
theorem InRange.wordNext?_eq (h : p.InRange) : p.wordNext? = some p.next := by
  obtain ⟨hpos, hwidth, hlast, hcursor⟩ := h
  rw [wordNext?, next]
  cases hc : p.cursor with
  | none => rfl
  | some lower =>
    have hlower := hcursor lower hc
    have hover : p.horizon.any (· < lower) = true ↔ p.last < lower := by
      rw [last]
      cases p.horizon with
      | none => simpa using hlower
      | some horizon => simp
    have hupper : p.horizon.elim (min (lower + (p.width - 1)) lastCycle)
        (min (min (lower + (p.width - 1)) lastCycle)) =
        min (min (lower + (p.width - 1)) lastCycle) p.last := by
      rw [last]
      cases p.horizon with
      | none => simp
      | some horizon => rfl
    by_cases hended : p.last < lower
    · simp only [hover, hended, if_true]
    · have hreach : difference? p.width 1 = some (p.width - 1) := if_pos hpos
      have hordered : lower ≤ min (min (lower + (p.width - 1)) lastCycle) p.last := by omega
      simp only [hover, hended, if_false, hreach, Option.bind_some, getD_word?, hupper, word?_succ,
        Window.new?, hordered, if_true, Option.map_some]

theorem inRange_new {block : Nat} {horizon : Option Nat} (hblock : block < wordLimit)
    (hh : ∀ h ∈ horizon, h < wordLimit) :
    (new block horizon).InRange := by
  have hlimit : wordLimit = lastCycle + 1 := rfl
  refine ⟨Nat.lt_of_lt_of_le Nat.one_pos (Nat.le_max_right _ _),
    Nat.max_le.mpr ⟨by omega, by decide⟩, ?_, ?_⟩
  · cases horizon with
    | none => exact Nat.le_refl _
    | some h => exact Nat.le_of_lt_succ (hh h rfl)
  · rintro lower ⟨⟩
    exact Nat.zero_le _

theorem next_eq_none (h : p.next = (none, p')) : p' = { p with cursor := none } := by
  unfold next at h
  split at h
  · rename_i hc
    cases h
    rw [← hc]
  · split at h
    · exact (Prod.mk.inj h).2.symm
    · cases h

theorem next_of_cursor_none (h : p.cursor = none) : p.next = (none, p) := by
  rw [next, h]

theorem InRange.next (h : p.InRange) : p.next.2.InRange := by
  rcases hnext : p.next with ⟨answer, p'⟩
  cases answer with
  | none =>
    obtain rfl := next_eq_none hnext
    exact ⟨h.width_pos, h.width_le, h.last_le, fun _ hlower => nomatch hlower⟩
  | some w =>
    obtain ⟨lower, -, -, -, hwidth, hlast, hcursor⟩ := next_eq_some hnext
    refine ⟨hwidth ▸ h.width_pos, hwidth ▸ h.width_le, hlast ▸ h.last_le, ?_⟩
    intro lower' hlower'
    rw [hcursor] at hlower'
    split at hlower'
    · obtain rfl := Option.some.inj hlower'
      omega
    · cases hlower'

/-- The planner after some calls. -/
def after (p : Planner) : Nat → Planner
  | 0 => p
  | n + 1 => (p.after n).next.2

theorem InRange.after (h : p.InRange) (n : Nat) : (p.after n).InRange := by
  induction n with
  | zero => exact h
  | succ n ih => exact ih.next

theorem next_after_of_none {i j : Nat} (h : (p.after i).next.1 = none) (hij : i ≤ j) :
    (p.after j).next.1 = none ∧ (p.after j).next.2.cursor = none := by
  induction j, hij using Nat.le_induction with
  | base =>
    rw [next_eq_none (Prod.ext h rfl : (p.after i).next = (none, (p.after i).next.2))]
    exact ⟨h, rfl⟩
  | succ j _ ih =>
    rw [after, next_of_cursor_none ih.2]
    exact ⟨rfl, ih.2⟩

/-- Called until it has no window left, the planner gives just these. -/
inductive Yields : Planner → List Window → Prop
  | done {p p' : Planner} (h : p.next = (none, p')) : Yields p []
  | more {p p' : Planner} {w : Window} {ws : List Window} (h : p.next = (some w, p'))
      (hrest : Yields p' ws) :
    Yields p (w :: ws)

theorem windows_of_next (hw : 0 < p.width) (h : p.next = (some w, p')) :
    p.windows = w :: p'.windows := by
  have hlt := next_remaining_lt hw h
  obtain ⟨-, -, -, -, hwidth, -⟩ := next_eq_some h
  obtain ⟨n, hn⟩ := Nat.exists_eq_add_of_lt hlt
  rw [windows, hn, upTo, h]
  dsimp only
  rw [windows, upTo_eq_upTo (hwidth ▸ hw) (by omega) (Nat.le_refl _)]

theorem yields_windows (hw : 0 < p.width) : p.Yields p.windows := by
  induction hn : p.remaining using Nat.strong_induction_on generalizing p with
  | _ n ih =>
    rcases hnext : p.next with ⟨answer, p'⟩
    cases answer with
    | none =>
      rw [windows, upTo_of_next_none (by rw [hnext])]
      exact .done hnext
    | some w =>
      have hlt := next_remaining_lt hw hnext
      obtain ⟨-, -, -, -, hwidth, -⟩ := next_eq_some hnext
      rw [windows_of_next hw hnext]
      exact .more hnext (ih p'.remaining (hn ▸ hlt) (hwidth ▸ hw) rfl)

/-- A new planner gives the windows into which the cycles up to the horizon, or up to the last cycle
of all, are cut, and then none for ever. Each cycle lies in one of them, and all but the last are as
wide as the planner was told. -/
theorem new_partitions {block width last : Nat} {horizon : Option Nat} (hblock : block < wordLimit)
    (hh : ∀ h ∈ horizon, h < wordLimit) (hwidth : width = max block 1)
    (hlast : last = horizon.getD lastCycle) :
    (new block horizon).Yields ((List.range (last / width + 1)).map (Window.cut width last)) ∧
    (∀ c ≤ last, ∃! k, k < last / width + 1 ∧ (Window.cut width last k).contains c = true) ∧
    (∀ k < last / width + 1, ∃ n, (Window.cut width last k).width? = some n ∧ n ≤ width ∧
      (k < last / width → n = width)) ∧
    (∀ i, ((new block horizon).after i).wordNext? = some ((new block horizon).after i).next) ∧
    ∀ i j, ((new block horizon).after i).next.1 = none → i ≤ j →
      ((new block horizon).after j).next.1 = none ∧
      ((new block horizon).after j).next.2.cursor = none := by
  subst hwidth hlast
  have hrange := inRange_new hblock hh
  have hpos : 0 < max block 1 := hrange.width_pos
  have hwindows : (new block horizon).windows =
      (List.range (horizon.getD lastCycle / max block 1 + 1)).map
        (Window.cut (max block 1) (horizon.getD lastCycle)) := by
    have hnew : new block horizon = new (max block 1) horizon := by simp [new]
    rw [hnew, windows_new hpos fun h hmem => Nat.le_pred_of_lt (hh h hmem)]
    rfl
  refine ⟨hwindows ▸ yields_windows hpos, fun c => Window.existsUnique_cut hpos, ?_, ?_, ?_⟩
  · exact fun k => Window.width?_cut hpos hrange.width_le
  · exact fun i => (hrange.after i).wordNext?_eq
  · exact fun i j => next_after_of_none

/-- The widest windows that the counter can hold leave the last cycle alone in a window of its
own. -/
theorem new_partitions_widest :
    (new lastCycle (some lastCycle)).Yields [⟨0, lastCycle - 1⟩, ⟨lastCycle, lastCycle⟩] ∧
      ((new lastCycle (some lastCycle)).after 2).next.1 = none ∧
      ((new lastCycle (some lastCycle)).after 5).next.2.cursor = none := by
  have hblock : lastCycle < wordLimit := by decide
  have hhorizon : ∀ h ∈ some lastCycle, h < wordLimit := by
    rintro h ⟨⟩
    exact hblock
  obtain ⟨hyields, -, -, -, hended⟩ := new_partitions hblock hhorizon rfl rfl
  have hthird : ((new lastCycle (some lastCycle)).after 2).next.1 = none := by decide +kernel
  exact ⟨hyields, hthird, (hended 2 5 hthird (by decide)).2⟩

end Planner

end NoiseTimeline
