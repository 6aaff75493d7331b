import NoiseTimeline.Window

/-! The windows that a planner has still to give. They start a width apart, and all
but the last are as wide as the planner says. -/

namespace NoiseTimeline.Planner

variable {p p' : Planner} {w : Window} {lower : Nat}

/-- The next windows, at most `n`. -/
def upTo : Nat → Planner → List Window
  | 0, _ => []
  | n + 1, p =>
    match p.next with
    | (none, _) => []
    | (some w, p) => w :: upTo n p

def windows (p : Planner) : List Window := p.upTo p.remaining

theorem remaining_of_none (h : p.cursor = none) : p.remaining = 0 := by
  simp [remaining, h]

theorem remaining_of_some (h : p.cursor = some lower) :
    p.remaining = if p.last < lower then 0 else (p.last - lower) / p.width + 1 := by
  simp [remaining, h]

theorem next_of_cursor (h : p.cursor = some lower) (hle : lower ≤ p.last) :
    ∃ p', p.next = (some ⟨lower, min (min (lower + (p.width - 1)) lastCycle) p.last⟩, p') := by
  rw [next, h]
  simp only [if_neg (Nat.not_lt.mpr hle)]
  exact ⟨_, rfl⟩

theorem next_eq_some (h : p.next = (some w, p')) :
    ∃ lower, p.cursor = some lower ∧ lower ≤ p.last ∧
      w = ⟨lower, min (min (lower + (p.width - 1)) lastCycle) p.last⟩ ∧ p'.width = p.width ∧
      p'.last = p.last ∧ p'.cursor = if w.upper < lastCycle then some (w.upper + 1) else none := by
  unfold next at h
  split at h
  · cases h
  · rename_i lower hc
    split at h
    · cases h
    · rename_i hle
      cases h
      exact ⟨lower, hc, Nat.not_lt.mp hle, rfl, rfl, rfl, rfl⟩

theorem next_of_remaining_zero (h : p.remaining = 0) : p.next.1 = none := by
  cases hnext : p.next.1 with
  | none => rfl
  | some w =>
    obtain ⟨lower, hc, hle, -⟩ := next_eq_some (Prod.ext hnext rfl : p.next = (some w, p.next.2))
    rw [remaining_of_some hc, if_neg (Nat.not_lt.mpr hle)] at h
    cases h

theorem next_remaining_lt (hw : 0 < p.width) (h : p.next = (some w, p')) :
    p'.remaining < p.remaining := by
  obtain ⟨lower, hc, hle, rfl, hwidth, hlast, hcursor⟩ := next_eq_some h
  rw [remaining_of_some hc, if_neg (Nat.not_lt.mpr hle)]
  dsimp only at hcursor
  split at hcursor
  · rename_i hend
    rw [remaining_of_some hcursor, hwidth, hlast]
    split
    · exact Nat.succ_pos _
    · rename_i hmore
      have hstep : min (min (lower + (p.width - 1)) lastCycle) p.last + 1 = lower + p.width := by
        omega
      have hdiv := Nat.div_eq_sub_div hw (show p.width ≤ p.last - lower by omega)
      rw [hstep, hdiv, Nat.sub_sub]
      omega
  · rw [remaining_of_none hcursor]
    exact Nat.succ_pos _

theorem upTo_of_next_none (h : p.next.1 = none) (n : Nat) : p.upTo n = [] := by
  cases n with
  | zero => rfl
  | succ n =>
    rw [upTo]
    split
    · rfl
    · rename_i hnext
      rw [hnext] at h
      cases h

theorem upTo_eq_upTo (hw : 0 < p.width) {m n : Nat} (hm : p.remaining ≤ m) (hn : p.remaining ≤ n) :
    p.upTo m = p.upTo n := by
  induction m generalizing p n with
  | zero =>
    have hnone := next_of_remaining_zero (Nat.le_zero.mp hm)
    rw [upTo_of_next_none hnone, upTo_of_next_none hnone]
  | succ m ih =>
    cases n with
    | zero =>
      have hnone := next_of_remaining_zero (Nat.le_zero.mp hn)
      rw [upTo_of_next_none hnone, upTo_of_next_none hnone]
    | succ n =>
      rw [upTo, upTo]
      split
      · rfl
      · rename_i w p' hnext
        have hlt := next_remaining_lt hw hnext
        obtain ⟨-, -, -, -, hwidth, -⟩ := next_eq_some hnext
        have hrest := ih (p := p') (n := n) (by omega) (by omega) (by omega)
        rw [hrest]

theorem cursor_of_next (hlast : p.last ≤ lastCycle) (hc : p.cursor = some lower)
    (hroom : lower + p.width ≤ p.last) (hw : 0 < p.width) (h : p.next = (some w, p')) :
    p'.cursor = some (lower + p.width) := by
  obtain ⟨lower', hc', -, rfl, -, -, hcursor⟩ := next_eq_some h
  obtain rfl : lower' = lower := Option.some.inj (hc'.symm.trans hc)
  dsimp only at hcursor
  rw [hcursor, if_pos (by omega)]
  congr 1
  omega

theorem upTo_eq_map_range {n : Nat} (hw : 0 < p.width) (hlast : p.last ≤ lastCycle)
    (hc : p.cursor = some lower) (hle : lower ≤ p.last) (hn : n ≤ (p.last - lower) / p.width + 1) :
    p.upTo n = (List.range n).map fun k =>
      ⟨lower + k * p.width, min (lower + k * p.width + (p.width - 1)) p.last⟩ := by
  induction n generalizing p lower with
  | zero => rfl
  | succ n ih =>
    obtain ⟨p', hnext⟩ := next_of_cursor hc hle
    obtain ⟨-, -, -, -, hwidth, hlast', -⟩ := next_eq_some hnext
    have hupper : min (min (lower + (p.width - 1)) lastCycle) p.last =
        min (lower + (p.width - 1)) p.last := by omega
    rw [upTo, hnext, List.range_succ_eq_map, List.map_cons, List.map_map]
    dsimp only
    rw [hupper, Nat.zero_mul, Nat.add_zero]
    congr 1
    cases n with
    | zero => rfl
    | succ n =>
      have hroom : lower + p.width ≤ p.last := by
        have h1 : 1 * p.width ≤ p.last - lower := (Nat.le_div_iff_mul_le hw).mp (by omega)
        omega
      have hdiv := Nat.div_eq_sub_div hw (show p.width ≤ p.last - lower by omega)
      have hstep :=
        ih (p := p') (by omega) (by omega) (cursor_of_next hlast hc hroom hw hnext) (by omega) (by
          rw [hlast', hwidth, ← Nat.sub_sub]
          omega)
      rw [hstep, hwidth, hlast']
      apply List.map_congr_left
      intro k _
      have hk : lower + p.width + k * p.width = lower + (k + 1) * p.width := by
        rw [Nat.succ_mul]
        omega
      rw [hk]
      rfl

/-- A new planner's windows start at the multiples of its width up to the last cycle. -/
theorem windows_new {width : Nat} {horizon : Option Nat} (hw : 0 < width)
    (hh : ∀ h ∈ horizon, h ≤ lastCycle) :
    (Planner.new width horizon).windows =
      (List.range (horizon.getD lastCycle / width + 1)).map fun k =>
        ⟨k * width, min (k * width + (width - 1)) (horizon.getD lastCycle)⟩ := by
  have hwidth : (Planner.new width horizon).width = width := Nat.max_eq_left hw
  have hlast : (Planner.new width horizon).last = horizon.getD lastCycle := rfl
  have hle : horizon.getD lastCycle ≤ lastCycle := by
    cases horizon with
    | none => exact Nat.le_refl _
    | some h => exact hh h rfl
  rw [windows, remaining_of_some rfl, if_neg (Nat.not_lt_zero _),
    upTo_eq_map_range (by omega) (by omega) rfl (Nat.zero_le _) (Nat.le_refl _), hwidth, hlast]
  simp only [Nat.zero_add, Nat.sub_zero]

/-- When the horizon is the end of a whole window, a later one leaves the windows before it as they
are. -/
theorem windows_isPrefix {width last last' : Nat} (hwhole : width ∣ last + 1) (hle : last ≤ last')
    (hlast' : last' ≤ lastCycle) :
    (Planner.new width (some last)).windows <+: (Planner.new width (some last')).windows := by
  have hw : 0 < width := Nat.pos_of_dvd_of_pos hwhole (Nat.succ_pos _)
  have hcount : (last / width + 1) * width = last + 1 := by
    rw [← Nat.succ_div_of_dvd hwhole]
    exact Nat.div_mul_cancel hwhole
  have hfewer : last / width + 1 ≤ last' / width + 1 := Nat.succ_le_succ (Nat.div_le_div_right hle)
  have hsame : (Planner.new width (some last)).windows =
      ((Planner.new width (some last')).windows).take (last / width + 1) := by
    rw [windows_new hw fun h hh => Option.some.inj hh ▸ Nat.le_trans hle hlast',
      windows_new hw fun h hh => Option.some.inj hh ▸ hlast', ← List.map_take, List.take_range,
      Option.getD_some, Option.getD_some, Nat.min_eq_left hfewer]
    apply List.map_congr_left
    intro k hk
    have hend : (k + 1) * width ≤ last + 1 :=
      hcount ▸ Nat.mul_le_mul_right width (List.mem_range.mp hk)
    rw [Nat.succ_mul] at hend
    congr 1
    omega
  rw [hsame]
  exact List.take_prefix _ _

end NoiseTimeline.Planner
