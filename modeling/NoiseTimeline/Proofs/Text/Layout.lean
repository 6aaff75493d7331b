import Mathlib.Data.List.TakeWhile
import NoiseTimeline.Proofs.Text.Lines

/-! Texts laid out in lines. Neither the blanks around a line nor the way in which it ends
is seen once the lines that are read are trimmed. -/

namespace NoiseTimeline.Text

variable {before after s t l : List Char} {ls : List (List Char)}

def AllBlank (s : List Char) : Prop := ∀ c ∈ s, isBlank c = true

instance (s : List Char) : Decidable (AllBlank s) :=
  List.decidableBAll (fun c => isBlank c = true) s

theorem trimLeft_append_of_allBlank (h : AllBlank before) (s : List Char) :
    trimLeft (before ++ s) = trimLeft s :=
  List.dropWhile_append_of_pos h

theorem trimLeft_eq_nil_iff : trimLeft s = [] ↔ AllBlank s := List.dropWhile_eq_nil_iff

theorem trimRight_append_of_allBlank (h : AllBlank after) (s : List Char) :
    trimRight (s ++ after) = trimRight s := by
  have hrev : ∀ c ∈ after.reverse, isBlank c = true := fun c hc => h c (List.mem_reverse.mp hc)
  rw [trimRight, List.reverse_append, List.dropWhile_append_of_pos hrev, trimRight]

theorem trimRight_append (h : ∀ c ∈ s.getLast?, isBlank c = false) (t : List Char) :
    trimRight (s ++ t) = s ++ trimRight t := by
  rw [trimRight, List.reverse_append, List.dropWhile_append]
  split
  · rename_i hnil
    have ht : trimRight t = [] := by rw [trimRight, List.isEmpty_iff.mp hnil, List.reverse_nil]
    rw [ht, List.append_nil]
    exact trimRight_eq h
  · rw [List.reverse_append, List.reverse_reverse, trimRight]

theorem trimRight_prefix (s : List Char) : trimRight s <+: s := by
  have hsuffix : s.reverse.dropWhile isBlank <:+ s.reverse := List.dropWhile_suffix _
  rw [← List.reverse_prefix, List.reverse_reverse] at hsuffix
  exact hsuffix

theorem mem_head?_of_trimRight {c : Char} (h : c ∈ (trimRight s).head?) : c ∈ s.head? := by
  obtain ⟨t, ht⟩ := trimRight_prefix s
  rw [← ht, List.head?_append, Option.mem_def.mp h]
  rfl

theorem isBlank_of_mem_head?_trim {c : Char} (h : c ∈ (trim s).head?) : isBlank c = false := by
  have hfirst := List.head?_dropWhile_not isBlank s
  have hc : (s.dropWhile isBlank).head? = some c := mem_head?_of_trimRight h
  rw [hc] at hfirst
  simpa using hfirst

theorem trim_padded (hbefore : AllBlank before) (hafter : AllBlank after) (s : List Char) :
    trim (before ++ (s ++ after)) = trim s := by
  have hdrop : trimLeft (s ++ after) =
      if (trimLeft s).isEmpty then trimLeft after else trimLeft s ++ after :=
    List.dropWhile_append
  rw [trim, trimLeft_append_of_allBlank hbefore, hdrop, trim]
  split
  · rename_i h
    rw [trimLeft_eq_nil_iff.mpr hafter, List.isEmpty_iff.mp h]
  · exact trimRight_append_of_allBlank hafter _

theorem firstWord?_append (hne : s ≠ []) (hs : ∀ c ∈ s, isBlank c = false)
    (ht : ∀ c ∈ t.head?, isBlank c = true) :
    firstWord? (' ' :: (s ++ t)) = some s := by
  have htrim : trimLeft (' ' :: (s ++ t)) = s ++ t := by
    have hspace : AllBlank [' '] := by decide
    obtain ⟨c, r, rfl⟩ := List.exists_cons_of_ne_nil hne
    exact (trimLeft_append_of_allBlank hspace _).trans
      (trimLeft_eq (by simpa using hs c List.mem_cons_self))
  have hword : (s ++ t).takeWhile (fun d => !isBlank d) = s := by
    rw [List.takeWhile_append_of_pos (by simpa using hs)]
    cases t with
    | nil => exact List.append_nil s
    | cons c t => rw [List.takeWhile_cons_of_neg (by simp [ht c rfl]), List.append_nil]
  obtain ⟨c, r, rfl⟩ := List.exists_cons_of_ne_nil hne
  rw [firstWord?, htrim]
  exact congrArg some hword

theorem isSome_firstWord?_iff : (firstWord? s).isSome = true ↔ ¬ AllBlank s := by
  rw [firstWord?, ← trimLeft_eq_nil_iff]
  split
  · rename_i h
    simp [h]
  · rename_i h
    simp [h]

/-- A text made of these lines. Each is closed by a line feed, with or without a carriage return;
the last may be left open. -/
inductive LaidOut : List (List Char) → List Char → Prop
  | nil : LaidOut [] []
  | last {l : List Char} (hne : l ≠ []) (hl : '\n' ∉ l) : LaidOut [l] l
  | lf {l s : List Char} {ls : List (List Char)} (hl : '\n' ∉ l) (h : LaidOut ls s) :
      LaidOut (l :: ls) (l ++ '\n' :: s)
  | crlf {l s : List Char} {ls : List (List Char)} (hl : '\n' ∉ l) (h : LaidOut ls s) :
    LaidOut (l :: ls) (l ++ '\r' :: '\n' :: s)

theorem trim_closeLine (l : List Char) : trim (closeLine l.reverse) = trim l := by
  rw [closeLine.eq_def]
  split
  · rename_i r hr
    have hl : l = [] ++ (r.reverse ++ ['\r']) := by
      rw [← List.reverse_reverse l, hr, List.reverse_cons, List.nil_append]
    have hblank : AllBlank ['\r'] := by decide
    rw [hl]
    exact (trim_padded (by decide) hblank r.reverse).symm
  · rw [List.reverse_reverse]

theorem linesFrom_last (hl : '\n' ∉ l) (acc : List Char) (hne : acc ++ l ≠ []) :
    linesFrom acc l = [acc.reverse ++ l] := by
  induction l generalizing acc with
  | nil =>
    rw [List.append_nil] at hne
    rw [linesFrom, if_neg (by simpa using hne), List.append_nil]
  | cons c l ih =>
    obtain ⟨hc, hl⟩ := not_or.mp (mt List.mem_cons.mpr hl)
    rw [linesFrom, if_neg (Ne.symm hc), ih hl (c :: acc) (by simp), List.reverse_cons,
      List.append_assoc]
    rfl

theorem LaidOut.map_trim_lines (h : LaidOut ls s) : (lines s).map trim = ls.map trim := by
  induction h with
  | nil => rfl
  | last hne hl =>
    rw [lines, linesFrom_last hl [] hne]
    rfl
  | lf hl _ ih => rw [lines_append hl, List.map_cons, ih, trim_closeLine, List.map_cons]
  | crlf hl _ ih => rw [lines_append_crlf hl, List.map_cons, ih, List.map_cons]

/-- The first line of a text, without the line feed that ends it and a carriage return right before
that. -/
def IsFirstLine (l s : List Char) : Prop :=
  '\n' ∉ l ∧ (s = l ∨ (∃ after, s = l ++ '\r' :: '\n' :: after) ∨
    l.getLast? ≠ some '\r' ∧ ∃ after, s = l ++ '\n' :: after)

theorem isFirstLine_of_lines (h : (lines s).head? = some l) : IsFirstLine l s := by
  by_cases hfeed : '\n' ∈ s
  · obtain ⟨before, after, rfl, hbefore⟩ := List.eq_append_cons_of_mem hfeed
    rw [lines_append hbefore, List.head?_cons, closeLine.eq_def] at h
    split at h
    · rename_i r hr
      obtain rfl := Option.some.inj h
      obtain rfl : before = r.reverse ++ ['\r'] := by
        rw [← List.reverse_reverse before, hr, List.reverse_cons]
      refine ⟨fun hmem => hbefore (List.mem_append_left _ hmem), Or.inr (Or.inl ⟨after, ?_⟩)⟩
      rw [List.append_assoc, List.singleton_append]
    · rename_i hreturn
      rw [List.reverse_reverse] at h
      obtain rfl := Option.some.inj h
      refine ⟨hbefore, Or.inr (Or.inr ⟨fun hlast => ?_, after, rfl⟩)⟩
      rw [← List.head?_reverse] at hlast
      obtain ⟨r, hr⟩ := List.head?_eq_some_iff.mp hlast
      exact hreturn r hr
  · by_cases hempty : s = []
    · subst hempty
      cases h
    · rw [lines, linesFrom_last hfeed [] hempty] at h
      obtain rfl := Option.some.inj h
      exact ⟨hfeed, Or.inl rfl⟩

theorem IsFirstLine.prefix_of_append (h : IsFirstLine l (before ++ s)) (hfeed : '\n' ∉ before)
    (hreturn : '\r' ∉ before) :
    before <+: l := by
  have hends : ∀ c after, c ∉ before → before ++ s = l ++ c :: after → before <+: l := by
    intro c after hc heq
    rcases List.append_eq_append_iff.mp heq with ⟨more, rfl, -⟩ | ⟨more, rfl, hmore⟩
    · exact List.prefix_append before more
    · cases more with
      | nil => exact (List.append_nil l).symm ▸ List.prefix_rfl
      | cons d more =>
        obtain rfl : c = d := (List.cons.inj hmore).1
        exact absurd (List.mem_append_right l List.mem_cons_self) hc
  obtain ⟨-, rfl | ⟨after, heq⟩ | ⟨-, after, heq⟩⟩ := h
  · exact List.prefix_append before s
  · exact hends '\r' _ hreturn heq
  · exact hends '\n' _ hfeed heq

theorem exists_head?_lines (hne : s ≠ []) : ∃ l, (lines s).head? = some l := by
  have hfrom : ∀ acc s, acc ++ s ≠ [] → linesFrom acc s ≠ [] := by
    intro acc s hne
    induction s generalizing acc with
    | nil => simpa [linesFrom] using hne
    | cons c s ih =>
      rw [linesFrom]
      split
      · exact List.cons_ne_nil _ _
      · exact ih (c :: acc) (by simp)
  obtain ⟨l, ls, hl⟩ := List.exists_cons_of_ne_nil (hfrom [] s hne)
  exact ⟨l, by rw [lines, hl, List.head?_cons]⟩

end NoiseTimeline.Text
