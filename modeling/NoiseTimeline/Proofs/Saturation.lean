import Mathlib.Data.List.Basic
import NoiseTimeline.Timeline

/-! The running maximum of a timeline and the sample that reaches it first. Among
numbers other than NaN the comparison is a total order, so the maximum is a sample's. -/

namespace NoiseTimeline

namespace Binary64

variable {x y z : Binary64}

theorem le_iff : x.le y = true ↔ x.isNaN = false ∧ y.isNaN = false ∧ x.key ≤ y.key := by
  simp [le, and_assoc]

theorem lt_iff : x.lt y = true ↔ x.isNaN = false ∧ y.isNaN = false ∧ x.key < y.key := by
  simp [lt, and_assoc]

theorem le_refl (hx : x.isNaN = false) : x.le x = true := le_iff.mpr ⟨hx, hx, Int.le_refl _⟩

theorem le_trans (hxy : x.le y = true) (hyz : y.le z = true) : x.le z = true := by
  rw [le_iff] at hxy hyz ⊢
  exact ⟨hxy.1, hyz.2.1, Int.le_trans hxy.2.2 hyz.2.2⟩

theorem le_of_not_le (hx : x.isNaN = false) (hy : y.isNaN = false)
    (h : x.le y = false) : y.le x = true := by
  rw [le_iff]
  rw [Bool.eq_false_iff, ne_eq, le_iff] at h
  refine ⟨hy, hx, ?_⟩
  have hkey : ¬ x.key ≤ y.key := fun hle => h ⟨hx, hy, hle⟩
  omega

theorem lt_eq_not_le (hx : x.isNaN = false) (hy : y.isNaN = false) : x.lt y = !y.le x := by
  rw [Bool.eq_iff_iff, Bool.not_eq_true', Bool.eq_false_iff, ne_eq, le_iff, lt_iff]
  constructor
  · rintro ⟨-, -, hlt⟩ ⟨-, -, hle⟩
    omega
  · intro hnot
    have hkey : ¬ y.key ≤ x.key := fun hle => hnot ⟨hy, hx, hle⟩
    exact ⟨hx, hy, by omega⟩

theorem eq_of_key_eq (hpos : 0 < x.key) (h : x.key = y.key) : x = y := by
  have hbits : ∀ z : Binary64, 0 < z.key → z.key = z.bits.toNat := by
    intro z hz
    unfold key isNegative magnitudeBits at *
    split at hz
    · omega
    · rename_i hsign
      rw [if_neg hsign, Nat.mod_eq_of_lt (by simpa using hsign)]
  have hnat : x.bits.toNat = y.bits.toNat := by
    have hx := hbits x hpos
    have hy := hbits y (h ▸ hpos)
    omega
  have heq : x.bits = y.bits := UInt64.toNat_inj.mp hnat
  cases x
  cases y
  exact congrArg Binary64.mk heq

end Binary64

theorem saturation_isNaN : saturation.isNaN = false := by decide

theorem saturation_key_pos : 0 < saturation.key := by decide

theorem foldl_runningMax {m : Binary64} {ps : List Binary64} (hm : m.isNaN = false)
    (hps : ∀ p ∈ ps, p.isNaN = false) :
    ∃ top, ps.foldl runningMax (some m) = some top ∧ top ∈ m :: ps ∧
    ∀ p ∈ m :: ps, p.le top = true := by
  induction ps generalizing m with
  | nil => exact ⟨m, rfl, List.mem_singleton_self m, by simpa using Binary64.le_refl hm⟩
  | cons p ps ih =>
    have hp := hps p List.mem_cons_self
    have hrest : ∀ q ∈ ps, q.isNaN = false := fun q hq => hps q (List.mem_cons_of_mem _ hq)
    rw [List.foldl_cons, runningMax]
    split
    · rename_i hle
      obtain ⟨top, hfold, hmem, htop⟩ := ih hm hrest
      refine ⟨top, hfold, ?_, ?_⟩
      · rcases List.mem_cons.mp hmem with rfl | hmem
        · exact List.mem_cons_self
        · exact List.mem_cons_of_mem _ (List.mem_cons_of_mem _ hmem)
      · intro q hq
        rcases List.mem_cons.mp hq with rfl | hq
        · exact htop q List.mem_cons_self
        · rcases List.mem_cons.mp hq with rfl | hq
          · exact Binary64.le_trans hle (htop m List.mem_cons_self)
          · exact htop q (List.mem_cons_of_mem _ hq)
    · rename_i hgt
      have hmp : m.le p = true := Binary64.le_of_not_le hp hm (by simpa using hgt)
      obtain ⟨top, hfold, hmem, htop⟩ := ih hp hrest
      refine ⟨top, hfold, List.mem_cons_of_mem _ hmem, ?_⟩
      intro q hq
      rcases List.mem_cons.mp hq with rfl | hq
      · exact Binary64.le_trans hmp (htop p List.mem_cons_self)
      · exact htop q hq

theorem Timeline.maxProbability_eq_some {t : Timeline} (hne : t ≠ [])
    (ht : ∀ x ∈ t, x.probability.isNaN = false) :
    ∃ top, t.maxProbability = some top ∧ (∃ x ∈ t, x.probability = top) ∧
    ∀ x ∈ t, x.probability.le top = true := by
  obtain ⟨x, rest, rfl⟩ := List.exists_cons_of_ne_nil hne
  have hrest : ∀ p ∈ rest.map Sample.probability, p.isNaN = false := by
    intro p hp
    obtain ⟨y, hy, rfl⟩ := List.mem_map.mp hp
    exact ht y (List.mem_cons_of_mem _ hy)
  obtain ⟨top, hfold, hmem, htop⟩ := foldl_runningMax (ht x List.mem_cons_self) hrest
  rw [← List.map_cons] at hmem htop
  refine ⟨top, hfold, List.mem_map.mp hmem, ?_⟩
  intro y hy
  exact htop _ (List.mem_map_of_mem hy)

namespace Convergence

variable {t : Timeline}

theorem ofTimeline_of_below (ht : ∀ x ∈ t, x.probability.isNaN = false)
    (hbelow : ∀ x ∈ t, saturation.le x.probability = false) : ofTimeline t = .continuing := by
  by_cases hne : t = []
  · rw [hne]
    rfl
  · obtain ⟨top, hmax, ⟨x, hx, rfl⟩, -⟩ := Timeline.maxProbability_eq_some hne ht
    have hlt : x.probability.lt saturation = true := by
      rw [Binary64.lt_eq_not_le (ht x hx) saturation_isNaN, hbelow x hx]
      rfl
    rw [ofTimeline, hmax]
    simp only [hlt, if_true]

theorem ofTimeline_of_reached (ht : ∀ x ∈ t, x.probability.isNaN = false)
    (hreached : ∃ x ∈ t, saturation.le x.probability = true) :
    ∃ before x after, t = before ++ x :: after ∧
      ofTimeline t = .saturated x.probability x.clockCycle ∧
      (∀ y ∈ t, y.probability.le x.probability = true) ∧
      ∀ y ∈ before, y.probability.lt x.probability = true := by
  obtain ⟨z, hz, hsat⟩ := hreached
  obtain ⟨top, hmax, ⟨m, hm, rfl⟩, htop⟩ :=
    Timeline.maxProbability_eq_some (List.ne_nil_of_mem hz) ht
  have hmsat : saturation.le m.probability = true := Binary64.le_trans hsat (htop z hz)
  have hnlt : m.probability.lt saturation = false := by
    rw [Binary64.lt_eq_not_le (ht m hm) saturation_isNaN, hmsat]
    rfl
  have hfound : (t.find? fun s => m.probability.le s.probability).isSome = true := by
    rw [List.find?_isSome]
    exact ⟨m, hm, Binary64.le_refl (ht m hm)⟩
  obtain ⟨x, hx⟩ := Option.isSome_iff_exists.mp hfound
  obtain ⟨hmx, before, after, hsplit, hbefore⟩ := List.find?_eq_some_iff_append.mp hx
  have hxt : x ∈ t := List.mem_of_find?_eq_some hx
  have heq : m.probability = x.probability := by
    have h1 := (Binary64.le_iff.mp hmx).2.2
    have h2 := (Binary64.le_iff.mp (htop x hxt)).2.2
    have h3 := (Binary64.le_iff.mp hmsat).2.2
    exact Binary64.eq_of_key_eq (Int.lt_of_lt_of_le saturation_key_pos h3) (Int.le_antisymm h1 h2)
  refine ⟨before, x, after, hsplit, ?_, ?_, ?_⟩
  · have hnot : ¬ m.probability.lt saturation = true := by simp [hnlt]
    rw [ofTimeline, hmax]
    dsimp only
    rw [if_neg hnot, hx, heq]
    rfl
  · rw [← heq]
    exact htop
  · intro y hy
    have hyt : y ∈ t := by
      rw [hsplit]
      exact List.mem_append_left _ hy
    rw [Binary64.lt_eq_not_le (ht y hyt) (ht x hxt), ← heq]
    exact hbefore y hy

end Convergence

end NoiseTimeline
