import Mathlib.Data.List.Nodup

/-! Sorting by a number, the key of an element. The sort is stable, so elements of one
key keep the order that they had. -/

namespace NoiseTimeline

variable {α : Type} {l : List α} {x y : α} {key : α → Nat}

theorem key_le_trans (key : α → Nat) (x y z : α) (hxy : decide (key x ≤ key y) = true)
    (hyz : decide (key y ≤ key z) = true) :
    decide (key x ≤ key z) = true := by
  rw [decide_eq_true_eq] at *
  omega

theorem key_le_total (key : α → Nat) (x y : α) :
    (decide (key x ≤ key y) || decide (key y ≤ key x)) = true := by
  rw [Bool.or_eq_true, decide_eq_true_eq, decide_eq_true_eq]
  omega

theorem mergeSort_key_ascending (key : α → Nat) (l : List α) :
    (l.mergeSort fun x y => key x ≤ key y).Pairwise fun x y => key x ≤ key y :=
  (List.pairwise_mergeSort (key_le_trans key) (key_le_total key) l).imp of_decide_eq_true

theorem mergeSort_key_of_ascending (h : l.Pairwise fun x y => key x ≤ key y) :
    (l.mergeSort fun x y => key x ≤ key y) = l :=
  List.mergeSort_of_pairwise (h.imp decide_eq_true)

theorem filter_mergeSort_key (key : α → Nat) (k : Nat) (l : List α) :
    (l.mergeSort fun x y => key x ≤ key y).filter (fun x => key x = k) = l.filter fun x =>
      key x = k := by
  have hequal : (l.filter fun x => key x = k).Pairwise fun x y =>
      decide (key x ≤ key y) = true := by
    rw [List.pairwise_filter]
    refine List.pairwise_of_forall fun x y hx hy => ?_
    rw [decide_eq_true_eq] at *
    omega
  have hsub : (l.filter fun x => key x = k).Sublist (l.mergeSort fun x y => key x ≤ key y) :=
    List.sublist_mergeSort (key_le_trans key) (key_le_total key) hequal List.filter_sublist
  have hfilter := hsub.filter fun x => decide (key x = k)
  rw [List.filter_filter] at hfilter
  simp only [Bool.and_self] at hfilter
  exact (hfilter.eq_of_length ((List.mergeSort_perm l _).filter _).length_eq.symm).symm

theorem not_pair_swapped (hnd : l.Nodup) (h : [x, y].Sublist l) : ¬ [y, x].Sublist l := by
  induction l with
  | nil => simp at h
  | cons a l ih =>
    obtain ⟨ha, hnd⟩ := List.nodup_cons.mp hnd
    intro h'
    rcases List.sublist_cons_iff.mp h with hxy | ⟨r, hr, hsub⟩
    · have hy : y ∈ l := hxy.subset (by simp)
      rcases List.sublist_cons_iff.mp h' with hyx | ⟨r', hr', -⟩
      · exact ih hnd hxy hyx
      · exact ha ((List.cons.inj hr').1 ▸ hy)
    · obtain ⟨rfl, rfl⟩ := List.cons.inj hr
      have hy : y ∈ l := hsub.subset (by simp)
      rcases List.sublist_cons_iff.mp h' with hyx | ⟨r', hr', -⟩
      · exact ha (hyx.subset (by simp))
      · exact ha ((List.cons.inj hr').1 ▸ hy)

theorem pair_sublist_or (hx : x ∈ l) (hy : y ∈ l) (hne : x ≠ y) :
    [x, y].Sublist l ∨ [y, x].Sublist l := by
  obtain ⟨before, after, rfl⟩ := List.append_of_mem hx
  rcases List.mem_append.mp hy with hy | hy
  · right
    exact (List.singleton_sublist.mpr hy).append (List.singleton_sublist.mpr List.mem_cons_self)
  · have hy : y ∈ after := (List.mem_cons.mp hy).resolve_left hne.symm
    left
    exact ((List.singleton_sublist.mpr hy).cons_cons x).trans
      (List.sublist_append_right before (x :: after))

theorem pairwise_mergeSort_key {R : α → α → Prop} (hnd : l.Nodup) (hR : l.Pairwise R) :
    (l.mergeSort fun x y => key x ≤ key y).Pairwise fun x y =>
      key x < key y ∨ key x = key y ∧ R x y := by
  have hnd' : (l.mergeSort fun x y => key x ≤ key y).Nodup :=
    (List.mergeSort_perm l _).nodup_iff.mpr hnd
  rw [List.pairwise_iff_forall_sublist]
  intro x y hxy
  have hle : key x ≤ key y :=
    List.pairwise_iff_forall_sublist.mp (mergeSort_key_ascending key l) hxy
  rcases Nat.lt_or_eq_of_le hle with hlt | heq
  · exact Or.inl hlt
  · refine Or.inr ⟨heq, ?_⟩
    have hne : x ≠ y := by
      rintro rfl
      exact not_pair_swapped hnd' hxy hxy
    have hx : x ∈ l := List.mem_mergeSort.mp (hxy.subset (by simp))
    have hy : y ∈ l := List.mem_mergeSort.mp (hxy.subset (by simp))
    -- A pair that stood the other way before would still do so, for the sort is stable.
    rcases pair_sublist_or hx hy hne with h | h
    · exact List.pairwise_iff_forall_sublist.mp hR h
    · have hback : decide (key y ≤ key x) = true := by simp [heq]
      exact absurd (List.pair_sublist_mergeSort (key_le_trans key) (key_le_total key) hback h)
        (not_pair_swapped hnd' hxy)

end NoiseTimeline
