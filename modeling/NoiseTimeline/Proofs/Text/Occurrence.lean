import NoiseTimeline.Proofs.Text.Search
import NoiseTimeline.Proofs.Text.Seam

/-! Occurrences in the lines of a text. What contains no line end occurs in a text just if
it occurs in one of its lines, and what contains no blanks is not cut off by trimming. -/

namespace NoiseTimeline.Text

variable {pat s l acc : List Char}

theorem prefix_closeLine (acc : List Char) : closeLine acc <+: acc.reverse := by
  rw [closeLine.eq_def]
  split
  · rw [List.reverse_cons]
    exact List.prefix_append _ _
  · exact List.prefix_refl _

/-- The carriage return that goes with a line end is no part of the occurrence. -/
theorem infix_closeLine (hne : pat ≠ []) (hreturn : '\r' ∉ pat) (h : pat <:+: acc.reverse) :
    pat <:+: closeLine acc := by
  rw [closeLine.eq_def]
  split
  · rw [List.reverse_cons] at h
    exact (infix_append_cons hreturn h).resolve_right fun hnil => hne (List.infix_nil.mp hnil)
  · exact h

theorem exists_linesFrom_of_infix (hne : pat ≠ []) (hfeed : '\n' ∉ pat) (hreturn : '\r' ∉ pat)
    (h : pat <:+: acc.reverse ++ s) : ∃ l ∈ linesFrom acc s, pat <:+: l := by
  induction s generalizing acc with
  | nil =>
    rw [List.append_nil] at h
    have hacc : acc.isEmpty = false := by
      rw [Bool.eq_false_iff, ne_eq, List.isEmpty_iff]
      rintro rfl
      exact hne (List.infix_nil.mp h)
    rw [linesFrom, hacc]
    exact ⟨acc.reverse, List.mem_singleton_self _, h⟩
  | cons c s ih =>
    rw [linesFrom]
    by_cases hc : c = '\n'
    · rw [if_pos hc]
      subst hc
      obtain h | h := infix_append_cons hfeed h
      · exact ⟨closeLine acc, List.mem_cons_self, infix_closeLine hne hreturn h⟩
      · obtain ⟨l, hl, hpat⟩ := @ih [] h
        exact ⟨l, List.mem_cons_of_mem _ hl, hpat⟩
    · rw [if_neg hc]
      apply ih
      rwa [List.reverse_cons, List.append_assoc]

theorem infix_of_mem_linesFrom (h : l ∈ linesFrom acc s) : l <:+: acc.reverse ++ s := by
  induction s generalizing acc with
  | nil =>
    rw [linesFrom] at h
    split at h
    · cases h
    · obtain rfl := List.mem_singleton.mp h
      exact (List.prefix_append _ _).isInfix
  | cons c s ih =>
    rw [linesFrom] at h
    split at h
    · obtain rfl | h := List.mem_cons.mp h
      · exact ((prefix_closeLine acc).trans (List.prefix_append _ _)).isInfix
      · have hrest : l <:+: s := ih h
        exact hrest.trans ((List.suffix_cons c s).trans (List.suffix_append _ _)).isInfix
    · have hwhole := ih h
      rwa [List.reverse_cons, List.append_assoc] at hwhole

theorem newline_not_mem_of_mem_linesFrom (hacc : '\n' ∉ acc)
    (h : l ∈ linesFrom acc s) : '\n' ∉ l := by
  have hreverse : '\n' ∉ acc.reverse := by rwa [List.mem_reverse]
  induction s generalizing acc with
  | nil =>
    rw [linesFrom] at h
    split at h
    · cases h
    · obtain rfl := List.mem_singleton.mp h
      exact hreverse
  | cons c s ih =>
    rw [linesFrom] at h
    split at h
    · obtain rfl | h := List.mem_cons.mp h
      · exact fun hmem => hreverse ((prefix_closeLine acc).subset hmem)
      · exact ih List.not_mem_nil h List.not_mem_nil
    · rename_i hc
      have hcons : '\n' ∉ c :: acc := by
        rw [List.mem_cons, not_or]
        exact ⟨Ne.symm hc, hacc⟩
      exact ih hcons h (by rwa [List.mem_reverse])

theorem exists_line_infix_iff (hne : pat ≠ []) (hfeed : '\n' ∉ pat) (hreturn : '\r' ∉ pat) :
    (∃ l ∈ lines s, pat <:+: l) ↔ pat <:+: s := by
  constructor
  · rintro ⟨l, hl, hpat⟩
    exact hpat.trans (infix_of_mem_linesFrom hl)
  · intro h
    exact exists_linesFrom_of_infix hne hfeed hreturn h

theorem newline_not_mem_of_mem_lines (h : l ∈ lines s) : '\n' ∉ l :=
  newline_not_mem_of_mem_linesFrom List.not_mem_nil h

theorem infix_trim (s : List Char) : trim s <:+: s := by
  obtain ⟨before, after, -, -, hs⟩ := exists_trim s
  exact ⟨before, after, by rw [List.append_assoc, ← hs]⟩

theorem infix_of_infix_append_foreign {a b ds : List Char} (hds : ∀ c ∈ ds, c ∉ pat)
    (h : pat <:+: a ++ (ds ++ b)) :
    pat <:+: a ++ b := by
  by_cases hne : ds = []
  · rwa [hne] at h
  · obtain h | h := infix_append_digits hne hds h
    · exact h.trans (List.prefix_append a b).isInfix
    · exact h.trans (List.suffix_append a b).isInfix

theorem infix_trim_iff (hblank : ∀ c ∈ pat, isBlank c = false) : pat <:+: trim s ↔ pat <:+: s := by
  refine ⟨fun h => h.trans (infix_trim s), fun h => ?_⟩
  obtain ⟨before, after, hbefore, hafter, hs⟩ := exists_trim s
  have hforeign : ∀ {blanks : List Char}, AllBlank blanks → ∀ c ∈ blanks, c ∉ pat := by
    intro blanks hblanks c hc hmem
    have hfilled := hblank c hmem
    rw [hblanks c hc] at hfilled
    cases hfilled
  rw [hs] at h
  have hright : pat <:+: trim s ++ (after ++ []) := by
    rw [List.append_nil]
    exact infix_of_infix_append_foreign (a := []) (hforeign hbefore) h
  have hmiddle := infix_of_infix_append_foreign (hforeign hafter) hright
  rwa [List.append_nil] at hmiddle

end NoiseTimeline.Text
