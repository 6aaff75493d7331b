import NoiseTimeline.Chart.Catalog
import NoiseTimeline.Proofs.KeySort

/-! Names by threshold. Names of one threshold keep the order that they had, which is
that of their characters. -/

namespace NoiseTimeline

theorem Catalog.mem_sorted {names : List String} {name : String} :
    name ∈ Catalog.sorted names ↔ name ∈ names :=
  List.mem_mergeSort

theorem Catalog.sorted_pairwise (names : List String) :
    (Catalog.sorted names).Pairwise fun x y => x ≤ y := by
  have htrans : ∀ x y z : String, decide (x ≤ y) = true → decide (y ≤ z) = true →
      decide (x ≤ z) = true := by
    simpa using fun x y z => String.le_trans
  have htotal : ∀ x y : String, (decide (x ≤ y) || decide (y ≤ x)) = true := by
    simpa using fun x y => String.le_total x y
  simpa [Catalog.sorted] using List.pairwise_mergeSort htrans htotal names

theorem Catalog.sorted_ascending {names : List String} (hnd : names.Nodup) :
    (Catalog.sorted names).Pairwise fun x y => x < y := by
  have hnd' : (Catalog.sorted names).Nodup := (List.mergeSort_perm names _).nodup_iff.mpr hnd
  refine ((Catalog.sorted_pairwise names).and hnd').imp ?_
  rintro x y ⟨hle, hne⟩
  exact String.not_le.mp fun hge => hne (String.le_antisymm hle hge)

theorem Catalog.sorted_eq_of_perm {names names' : List String} (h : names.Perm names') :
    Catalog.sorted names = Catalog.sorted names' := by
  have hperm : (Catalog.sorted names).Perm (Catalog.sorted names') :=
    (List.mergeSort_perm _ _).trans (h.trans (List.mergeSort_perm _ _).symm)
  exact hperm.eq_of_pairwise (fun _ _ _ _ => String.le_antisymm) (Catalog.sorted_pairwise _)
    (Catalog.sorted_pairwise _)

theorem Catalog.sorted_of_ascending {names : List String} (h : names.Pairwise fun x y => x ≤ y) :
    Catalog.sorted names = names := by
  refine List.mergeSort_of_pairwise (h.imp ?_)
  intro x y hle
  rwa [decide_eq_true_eq]

variable {p : NoiseProperty} {names : List String}

theorem mem_namesByThreshold {e : Nat × String} :
    e ∈ namesByThreshold p names ↔
    e.2 ∈ names ∧ p.isMentionedIn e.2 = true ∧ threshold? e.2 = some e.1 := by
  rw [namesByThreshold, List.mem_mergeSort, List.mem_filterMap]
  constructor
  · rintro ⟨name, hname, he⟩
    obtain ⟨threshold, hthreshold, rfl⟩ := Option.map_eq_some_iff.mp he
    obtain ⟨hmem, hmentioned⟩ := List.mem_filter.mp hname
    exact ⟨hmem, hmentioned, hthreshold⟩
  · rintro ⟨hmem, hmentioned, hthreshold⟩
    refine ⟨e.2, List.mem_filter.mpr ⟨hmem, hmentioned⟩, ?_⟩
    rw [hthreshold]
    rfl

theorem namesByThreshold_ascending (h : names.Pairwise fun x y => x < y) :
    (namesByThreshold p names).Pairwise fun e e' => e.1 < e'.1 ∨ e.1 = e'.1 ∧ e.2 < e'.2 := by
  have hbefore :
      ((names.filter p.isMentionedIn).filterMap fun name =>
        (threshold? name).map (·, name)).Pairwise
      fun e e' => e.2 < e'.2 := by
    refine (h.filter p.isMentionedIn).filterMap _ ?_
    intro name name' hlt e he e' he'
    obtain ⟨threshold, -, rfl⟩ := Option.map_eq_some_iff.mp he
    obtain ⟨threshold', -, rfl⟩ := Option.map_eq_some_iff.mp he'
    exact hlt
  have hnd : ((names.filter p.isMentionedIn).filterMap fun name =>
      (threshold? name).map (·, name)).Nodup := by
    refine hbefore.imp ?_
    rintro e e' hlt rfl
    exact String.lt_irrefl _ hlt
  exact pairwise_mergeSort_key hnd hbefore

end NoiseTimeline
