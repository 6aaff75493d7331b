import NoiseTimeline.Proofs.Text.Renumbering

/-! Names in a text replaced by values, all in one pass or one name after the other. Both
give the same text if no name overlaps another and no value has a part of a later name. -/

namespace NoiseTimeline.Text

variable {name value m u s t : List Char} {table : List (List Char × List Char)}

/-- One pass over a text from left to right: a name of the table becomes its value, and a character
at which no name starts is copied. -/
inductive Substituted (table : List (List Char × List Char)) : List Char → List Char → Prop
  | nil : Substituted table [] []
  | value {name value s t : List Char} (h : (name, value) ∈ table) (hrest : Substituted table s t) :
    Substituted table (name ++ s) (value ++ t)
  | copy {c : Char} {s t : List Char} (h : ∀ e ∈ table, ¬ e.1 <+: c :: s)
      (hrest : Substituted table s t) :
    Substituted table (c :: s) (c :: t)

theorem exists_substituted (hne : ∀ e ∈ table, e.1 ≠ []) (s : List Char) :
    ∃ t, Substituted table s t := by
  induction hn : s.length using Nat.strong_induction_on generalizing s with
  | _ n ih =>
    by_cases hname : ∃ e ∈ table, e.1 <+: s
    · obtain ⟨e, he, s, rfl⟩ := hname
      have hpos : 0 < e.1.length := List.length_pos_iff.mpr (hne e he)
      rw [List.length_append] at hn
      obtain ⟨t, ht⟩ := ih s.length (by omega) s rfl
      exact ⟨e.2 ++ t, .value he ht⟩
    · push Not at hname
      cases s with
      | nil => exact ⟨[], .nil⟩
      | cons c s =>
        rw [List.length_cons] at hn
        obtain ⟨t, ht⟩ := ih s.length (by omega) s rfl
        exact ⟨c :: t, .copy hname ht⟩

/-- No occurrence of the first text starts inside an occurrence of the second. -/
def Apart (name m : List Char) : Prop := ∀ u ∈ m.tails, u ≠ [] → ¬ name <+: u ∧ ¬ u <+: name

instance (name m : List Char) : Decidable (Apart name m) :=
  List.decidableBAll (fun u => u ≠ [] → ¬ name <+: u ∧ ¬ u <+: name) m.tails

theorem Apart.replaceAll_append (h : Apart name m) (s : List Char) :
    replaceAll name value (m ++ s) = m ++ replaceAll name value s := by
  have hsuffix : ∀ u, u <:+ m → replaceAll name value (u ++ s) = u ++ replaceAll name value s := by
    intro u hu
    induction u with
    | nil => rfl
    | cons c u ih =>
      obtain ⟨hname, hother⟩ :=
        h (c :: u) ((List.mem_tails (c :: u) m).mpr hu) (List.cons_ne_nil c u)
      have hstart : ¬ name <+: c :: (u ++ s) := by
        intro hpre
        exact (List.prefix_or_prefix_of_prefix hpre (List.prefix_append (c :: u) s)).elim
          hname hother
      rw [List.cons_append, replaceAll_cons hstart, ih ((List.suffix_cons c u).trans hu),
        List.cons_append]
  exact hsuffix m List.suffix_rfl

/-- Replacing a name completes no text that has nothing of the value in it. -/
theorem prefix_of_prefix_replaceAll (hname : name ≠ []) (hvalue : value ≠ [])
    (hforeign : ∀ c ∈ value, c ∉ u) (h : u <+: replaceAll name value s) : u <+: s := by
  induction u generalizing s with
  | nil => exact List.nil_prefix
  | cons c u ih =>
    by_cases hpre : name <+: s
    · obtain ⟨s, rfl⟩ := hpre
      rw [replaceAll_append hname] at h
      obtain ⟨d, value, rfl⟩ := List.exists_cons_of_ne_nil hvalue
      obtain ⟨rfl, -⟩ := List.cons_prefix_cons.mp h
      exact absurd List.mem_cons_self (hforeign c List.mem_cons_self)
    · cases s with
      | nil => exact h
      | cons d s =>
        rw [replaceAll_cons hpre, List.cons_prefix_cons] at h
        obtain ⟨rfl, h⟩ := h
        have hrest := ih (fun d hd hu => hforeign d hd (List.mem_cons_of_mem c hu)) h
        exact List.cons_prefix_cons.mpr ⟨rfl, hrest⟩

/-- Filling in the first name leaves the other as it is: they do not overlap, and of the value
nothing is in it. -/
structure LeavesWhole (e f : List Char × List Char) : Prop where
  apart : Apart e.1 f.1
  filled : e.2 ≠ []
  foreign : ∀ c ∈ e.2, c ∉ f.1

theorem pairwise_leavesWhole (hapart : (table.map Prod.fst).Pairwise Apart)
    (hforeign : ∀ e ∈ table.dropLast, e.2 ≠ [] ∧ ∀ f ∈ table, ∀ c ∈ e.2, c ∉ f.1) :
    table.Pairwise LeavesWhole := by
  induction table with
  | nil => exact .nil
  | cons e table ih =>
    obtain ⟨hfirst, hapart⟩ := List.pairwise_cons.mp hapart
    have hmem : ∀ e' ∈ table, ∀ f ∈ e :: table.dropLast, f ∈ (e :: table).dropLast := by
      intro e' he' f hf
      rwa [List.dropLast_cons_of_ne_nil (List.ne_nil_of_mem he')]
    refine List.pairwise_cons.mpr ⟨fun f hf => ?_, ih hapart fun e' he' => ?_⟩
    · obtain ⟨hfilled, hforeign⟩ := hforeign e (hmem f hf e List.mem_cons_self)
      exact ⟨hfirst f.1 (List.mem_map_of_mem hf), hfilled, hforeign f (List.mem_cons_of_mem e hf)⟩
    · obtain ⟨hfilled, hforeign⟩ :=
        hforeign e' (hmem e' (List.mem_of_mem_dropLast he') e' (List.mem_cons_of_mem e he'))
      exact ⟨hfilled, fun f hf => hforeign f (List.mem_cons_of_mem e hf)⟩

namespace Substituted

theorem append_foreign (h : Substituted table s t) (hne : ∀ e ∈ table, e.1 ≠ [])
    (hforeign : ∀ e ∈ table, ∀ c ∈ value, c ∉ e.1) :
    Substituted table (value ++ s) (value ++ t) := by
  induction value with
  | nil => exact h
  | cons c value ih =>
    refine .copy ?_ (ih fun e he d hd => hforeign e he d (List.mem_cons_of_mem c hd))
    intro e he hpre
    obtain ⟨d, m, hm⟩ := List.exists_cons_of_ne_nil (hne e he)
    rw [hm] at hpre
    obtain ⟨rfl, -⟩ := List.cons_prefix_cons.mp hpre
    exact hforeign e he d List.mem_cons_self (hm ▸ List.mem_cons_self)

theorem replaceAll (h : Substituted ((name, value) :: table) s t)
    (hne : ∀ e ∈ (name, value) :: table, e.1 ≠ [])
    (hwhole : ∀ e ∈ table, LeavesWhole (name, value) e) :
    Substituted table (replaceAll name value s) t := by
  obtain ⟨hname, hothers⟩ := List.forall_mem_cons.mp hne
  clear hne
  induction h with
  | nil => exact .nil
  | value hmem hrest ih =>
    rename_i name' value' s t
    rcases List.mem_cons.mp hmem with heq | hmem
    · obtain ⟨rfl, rfl⟩ := Prod.mk.inj heq
      rw [replaceAll_append hname]
      exact ih.append_foreign hothers fun e he => (hwhole e he).foreign
    · rw [(hwhole _ hmem).apart.replaceAll_append]
      exact .value hmem ih
  | copy hno hrest ih =>
    rename_i c s t
    obtain ⟨hfirst, hno⟩ := List.forall_mem_cons.mp hno
    rw [replaceAll_cons hfirst]
    refine .copy ?_ ih
    intro e he hpre
    obtain ⟨d, m, hm⟩ := List.exists_cons_of_ne_nil (hothers e he)
    rw [hm] at hpre
    obtain ⟨rfl, hcompleted⟩ := List.cons_prefix_cons.mp hpre
    -- The rest of the name would already have stood in the text before the replacement.
    have hforeign : ∀ c ∈ value, c ∉ m := by
      intro c hc hmem
      exact (hwhole e he).foreign c hc (hm ▸ List.mem_cons_of_mem d hmem)
    have hrest := prefix_of_prefix_replaceAll hname (hwhole e he).filled hforeign hcompleted
    exact hno e he (hm ▸ List.cons_prefix_cons.mpr ⟨rfl, hrest⟩)

theorem eq_of_nil (h : Substituted [] s t) : t = s := by
  induction h with
  | nil => rfl
  | value hmem _ _ => cases hmem
  | copy _ _ ih => rw [ih]

/-- Names replaced one after the other leave the text of one pass. -/
theorem eq_foldl (h : Substituted table s t) (hne : ∀ e ∈ table, e.1 ≠ [])
    (hwhole : table.Pairwise LeavesWhole) :
    t = table.foldl (fun text (name, value) => Text.replaceAll name value text) s := by
  induction table generalizing s with
  | nil => exact h.eq_of_nil
  | cons e table ih =>
    obtain ⟨hfirst, hwhole⟩ := List.pairwise_cons.mp hwhole
    exact ih (h.replaceAll hne hfirst) (List.forall_mem_cons.mp hne).2 hwhole

end Substituted

theorem substituted_iff (hne : ∀ e ∈ table, e.1 ≠ []) (hwhole : table.Pairwise LeavesWhole) :
    Substituted table s t ↔ t =
      table.foldl (fun text (name, value) => replaceAll name value text) s := by
  constructor
  · exact fun h => h.eq_foldl hne hwhole
  · rintro rfl
    obtain ⟨t, ht⟩ := exists_substituted hne s
    exact ht.eq_foldl hne hwhole ▸ ht

end NoiseTimeline.Text
