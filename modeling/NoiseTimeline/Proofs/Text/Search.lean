import Mathlib.Data.List.Infix
import NoiseTimeline.Text.Search

/-! Occurrences of a text in another, in terms of lists put together. -/

namespace NoiseTimeline.Text

variable {pat s before after : List Char}

theorem dropPrefix?_append (pat s : List Char) : dropPrefix? pat (pat ++ s) = some s := by
  have hpre : pat.isPrefixOf (pat ++ s) = true :=
    List.isPrefixOf_iff_prefix.mpr (List.prefix_append pat s)
  rw [dropPrefix?, if_pos hpre, List.drop_left]

theorem dropPrefix?_eq_none (h : ¬ pat <+: s) : dropPrefix? pat s = none := by
  rw [dropPrefix?, if_neg]
  rwa [List.isPrefixOf_iff_prefix]

theorem not_prefix_cons {c d : Char} (h : c ≠ d) : ¬ c :: pat <+: d :: s := by
  rintro ⟨rest, hrest⟩
  exact h (List.cons.inj hrest).1

theorem not_prefix_append (hlength : pat.length ≤ s.length) (h : ¬ pat <+: s) (t : List Char) :
    ¬ pat <+: s ++ t :=
  fun hpre => h (List.prefix_of_prefix_length_le hpre (List.prefix_append s t) hlength)

theorem eq_append_of_dropPrefix? {t : List Char}
    (h : dropPrefix? pat s = some t) : s = pat ++ t := by
  rw [dropPrefix?] at h
  split at h
  · rename_i hpre
    obtain ⟨rest, rfl⟩ := List.isPrefixOf_iff_prefix.mp hpre
    rw [List.drop_left] at h
    rw [Option.some.inj h]
  · cases h

theorem contains_iff_infix : contains pat s = true ↔ pat <:+: s := by
  rw [contains]
  induction s with
  | nil =>
    rw [splitAt?]
    cases pat <;> simp
  | cons c s ih =>
    rw [splitAt?]
    split
    · rename_i hpre
      rw [List.isPrefixOf_iff_prefix] at hpre
      simp [hpre.isInfix]
    · rename_i hpre
      rw [List.isPrefixOf_iff_prefix] at hpre
      rw [Option.isSome_map, ih, List.infix_cons_iff]
      simp [hpre]

/-- The leftmost occurrence of a text, with what stands before and after it: no occurrence starts
any earlier. -/
def SplitsAt (pat s before after : List Char) : Prop :=
  s = before ++ (pat ++ after) ∧ ¬ pat <:+: before ++ pat.dropLast

theorem splitsAt_of_splitAt? (hne : pat ≠ []) (h : splitAt? pat s = some (before, after)) :
    SplitsAt pat s before after := by
  induction s generalizing before with
  | nil =>
    rw [splitAt?, if_neg (by simpa using hne)] at h
    cases h
  | cons c s ih =>
    rw [splitAt?] at h
    split at h
    · rename_i hpre
      obtain ⟨rest, hrest⟩ := List.isPrefixOf_iff_prefix.mp hpre
      rw [← hrest, List.drop_left] at h
      obtain ⟨rfl, rfl⟩ := Prod.mk.inj (Option.some.inj h)
      refine ⟨hrest.symm, fun hinfix => ?_⟩
      have hlength := hinfix.length_le
      have hpos := List.length_pos_iff.mpr hne
      rw [List.nil_append, List.length_dropLast] at hlength
      omega
    · rename_i hpre
      rw [List.isPrefixOf_iff_prefix] at hpre
      obtain ⟨⟨before', after'⟩, hsplit, heq⟩ := Option.map_eq_some_iff.mp h
      obtain ⟨rfl, rfl⟩ := Prod.mk.inj heq
      obtain ⟨rfl, hfirst⟩ := ih hsplit
      refine ⟨rfl, ?_⟩
      rw [List.cons_append, List.infix_cons_iff, not_or]
      refine ⟨fun hstart => hpre (hstart.trans ?_), hfirst⟩
      refine List.cons_prefix_cons.mpr ⟨rfl, (List.prefix_append_right_inj before').mpr ?_⟩
      exact (List.dropLast_prefix pat).trans (List.prefix_append pat after')

/-- An occurrence does not reach over a character that it does not have. -/
theorem infix_append_cons {a b : List Char} {c : Char} (hc : c ∉ pat) (h : pat <:+: a ++ c :: b) :
    pat <:+: a ∨ pat <:+: b := by
  obtain ⟨u, v, h⟩ := h
  rw [List.append_assoc, List.append_eq_append_iff] at h
  rcases h with ⟨a', ha, h⟩ | ⟨u', hu, h⟩
  · rw [List.append_eq_append_iff] at h
    rcases h with ⟨d, hd, hv⟩ | ⟨d, hd, hv⟩
    · left
      rw [ha, hd]
      exact ⟨u, d, by rw [List.append_assoc]⟩
    · cases d with
      | nil =>
        left
        rw [List.append_nil] at hd
        rw [ha, hd]
        exact ⟨u, [], by rw [List.append_nil]⟩
      | cons e d =>
        obtain rfl : c = e := (List.cons.inj hv).1
        exact absurd (hd ▸ List.mem_append_right a' List.mem_cons_self) hc
  · cases u' with
    | nil =>
      cases pat with
      | nil => exact Or.inl (List.nil_infix)
      | cons e pat =>
        obtain rfl : c = e := (List.cons.inj h).1
        exact absurd List.mem_cons_self hc
    | cons e u' =>
      right
      have hb : b = u' ++ (pat ++ v) := (List.cons.inj h).2
      exact ⟨u', v, by rw [hb, List.append_assoc]⟩

theorem infix_append_digits {a b ds : List Char} (hne : ds ≠ []) (hds : ∀ c ∈ ds, c ∉ pat)
    (h : pat <:+: a ++ (ds ++ b)) :
    pat <:+: a ∨ pat <:+: b := by
  induction ds generalizing a with
  | nil => exact absurd rfl hne
  | cons c ds ih =>
    rcases infix_append_cons (hds c List.mem_cons_self) h with h | h
    · exact Or.inl h
    · by_cases hds' : ds = []
      · rw [hds'] at h
        exact Or.inr h
      · rcases ih (a := []) hds' (fun d hd => hds d (List.mem_cons_of_mem _ hd)) h with h | h
        · exact Or.inl (h.trans (List.nil_infix))
        · exact Or.inr h

theorem afterEach_cons_of_not_prefix {c : Char} (h : ¬ pat <+: c :: s) :
    afterEach pat 0 (c :: s) = afterEach pat 0 s := by
  rw [afterEach, if_neg]
  rwa [List.isPrefixOf_iff_prefix]

theorem afterEach_append {d : Char} {pre : List Char} (h : d ∉ pre) :
    afterEach (d :: pat) 0 (pre ++ s) = afterEach (d :: pat) 0 s := by
  induction pre with
  | nil => rfl
  | cons c pre ih =>
    have hc : d ≠ c := fun hc => h (hc ▸ List.mem_cons_self)
    rw [List.cons_append, afterEach_cons_of_not_prefix (not_prefix_cons hc),
      ih fun hd => h (List.mem_cons_of_mem _ hd)]

theorem afterEach_skip (done s : List Char) :
    afterEach pat done.length (done ++ s) = afterEach pat 0 s := by
  induction done with
  | nil => rfl
  | cons c done ih => rw [List.length_cons, List.cons_append, afterEach, ih]

theorem afterEach_of_prefix {d : Char} :
    afterEach (d :: pat) 0 (d :: pat ++ s) = s :: afterEach (d :: pat) 0 s := by
  have hpre : (d :: pat).isPrefixOf (d :: (pat ++ s)) = true :=
    List.isPrefixOf_iff_prefix.mpr (List.prefix_append (d :: pat) s)
  have hdrop : (d :: (pat ++ s)).drop (d :: pat).length = s := List.drop_left
  rw [List.cons_append, afterEach, if_pos hpre, hdrop, List.length_cons, Nat.add_sub_cancel,
    afterEach_skip]

end NoiseTimeline.Text
