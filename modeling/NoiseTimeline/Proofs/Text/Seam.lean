import NoiseTimeline.Proofs.Text.Layout

/-! Where one text follows another without a line feed, the last line of the first and the
first line of the second are read as one. Blanks at the ends of a text leave its filled
lines as they are. -/

namespace NoiseTimeline.Text

variable {s t l acc : List Char} {c : Char}

/-- The lines with more than blanks on them, without the blanks at their ends. -/
def filled (ls : List (List Char)) : List (List Char) := (ls.map trim).filter (· ≠ [])

theorem filled_cons_congr {l l' : List Char} {ls ls' : List (List Char)} (hl : trim l = trim l')
    (hls : filled ls = filled ls') : filled (l :: ls) = filled (l' :: ls') := by
  unfold filled at hls ⊢
  rw [List.map_cons, List.map_cons, List.filter_cons, List.filter_cons, hl, hls]

theorem filled_cons_of_trim_eq_nil {l : List Char} {ls : List (List Char)} (hl : trim l = []) :
    filled (l :: ls) = filled ls := by
  unfold filled
  rw [List.map_cons, hl, List.filter_cons_of_neg (by simp)]

theorem filled_cons_of_trim_ne_nil {l : List Char} {ls : List (List Char)} (hl : trim l ≠ []) :
    filled (l :: ls) = trim l :: filled ls := by
  rw [filled, List.map_cons, List.filter_cons_of_pos (by simpa using hl), filled]

theorem filled_append (ls ls' : List (List Char)) :
    filled (ls ++ ls') = filled ls ++ filled ls' := by
  rw [filled, List.map_append, List.filter_append, filled, filled]

theorem trim_cons_blank (hc : isBlank c = true) (s : List Char) : trim (c :: s) = trim s := by
  have hbefore : AllBlank [c] := by simpa [AllBlank] using hc
  have hpad := trim_padded hbefore (show AllBlank [] by decide) s
  rwa [List.append_nil] at hpad

theorem trim_concat_blank (hc : isBlank c = true) (s : List Char) : trim (s ++ [c]) = trim s := by
  have hafter : AllBlank [c] := by simpa [AllBlank] using hc
  exact trim_padded (show AllBlank [] by decide) hafter s

theorem trim_closeLine_acc (acc : List Char) : trim (closeLine acc) = trim acc.reverse := by
  have h := trim_closeLine acc.reverse
  rwa [List.reverse_reverse] at h

theorem filled_linesFrom_concat (hc : isBlank c = true) (acc s : List Char) :
    filled (linesFrom (acc ++ [c]) s) = filled (linesFrom acc s) := by
  have hstart : ∀ acc : List Char, trim (acc ++ [c]).reverse = trim acc.reverse := by
    intro acc
    rw [List.reverse_append, List.reverse_singleton, List.singleton_append]
    exact trim_cons_blank hc _
  induction s generalizing acc with
  | nil =>
    rw [linesFrom, linesFrom, if_neg (by simp)]
    split
    · rename_i hempty
      refine filled_cons_of_trim_eq_nil ?_
      rw [hstart, List.isEmpty_iff.mp hempty]
      rfl
    · exact filled_cons_congr (hstart acc) rfl
  | cons d s ih =>
    rw [linesFrom, linesFrom]
    split
    · refine filled_cons_congr ?_ rfl
      rw [trim_closeLine_acc, trim_closeLine_acc, hstart]
    · exact ih (d :: acc)

theorem filled_lines_cons (hc : isBlank c = true) (s : List Char) :
    filled (lines (c :: s)) = filled (lines s) := by
  rw [lines, linesFrom]
  split
  · exact filled_cons_of_trim_eq_nil rfl
  · exact filled_linesFrom_concat hc [] s

theorem filled_lines_concat (hc : isBlank c = true) (acc s : List Char) :
    filled (linesFrom acc (s ++ [c])) = filled (linesFrom acc s) := by
  induction s generalizing acc with
  | nil =>
    have hlast : filled (linesFrom acc []) = filled [acc.reverse] := by
      rw [linesFrom]
      split
      · rename_i hempty
        rw [List.isEmpty_iff.mp hempty]
        rfl
      · rfl
    rw [hlast, List.nil_append, linesFrom]
    split
    · exact filled_cons_congr (trim_closeLine_acc acc) rfl
    · rw [linesFrom, if_neg (by simp), List.reverse_cons]
      exact filled_cons_congr (trim_concat_blank hc _) rfl
  | cons d s ih =>
    rw [List.cons_append, linesFrom, linesFrom]
    split
    · exact filled_cons_congr rfl (ih [])
    · exact ih (d :: acc)

theorem exists_trimRight (s : List Char) : ∃ after, AllBlank after ∧ s = trimRight s ++ after := by
  refine ⟨(s.reverse.takeWhile isBlank).reverse, ?_, ?_⟩
  · intro c hc
    exact List.mem_takeWhile_imp (List.mem_reverse.mp hc)
  · rw [trimRight, ← List.reverse_append, List.takeWhile_append_dropWhile, List.reverse_reverse]

theorem exists_trim (s : List Char) :
    ∃ before after, AllBlank before ∧ AllBlank after ∧ s = before ++ (trim s ++ after) := by
  obtain ⟨after, hafter, hleft⟩ := exists_trimRight (trimLeft s)
  refine ⟨s.takeWhile isBlank, after, fun c hc => List.mem_takeWhile_imp hc, hafter, ?_⟩
  rw [trim, ← hleft]
  exact List.takeWhile_append_dropWhile.symm

theorem filled_lines_trim (s : List Char) : filled (lines (trim s)) = filled (lines s) := by
  have hbefore : ∀ before : List Char, AllBlank before →
      ∀ t, filled (lines (before ++ t)) = filled (lines t) := by
    intro before h t
    induction before with
    | nil => rfl
    | cons c before ih =>
      obtain ⟨hc, h⟩ := List.forall_mem_cons.mp h
      rw [List.cons_append, filled_lines_cons hc, ih h]
  have hafter : ∀ after : List Char, AllBlank after →
      ∀ t, filled (lines (t ++ after)) = filled (lines t) := by
    intro after h
    induction after with
    | nil =>
      intro t
      rw [List.append_nil]
    | cons c after ih =>
      intro t
      obtain ⟨hc, h⟩ := List.forall_mem_cons.mp h
      rw [List.append_cons, ih h, lines, filled_lines_concat hc, lines]
  obtain ⟨before, after, hblank, hblank', hs⟩ := exists_trim s
  calc filled (lines (trim s)) = filled (lines (before ++ (trim s ++ after))) := by
        rw [hbefore before hblank, hafter after hblank']
    _ = filled (lines s) := by rw [← hs]

theorem isBlank_of_mem_getLast?_trim (h : c ∈ (trim s).getLast?) : isBlank c = false := by
  have hfirst := List.head?_dropWhile_not isBlank (trimLeft s).reverse
  rw [trim, trimRight, List.getLast?_reverse] at h
  rw [h] at hfirst
  simpa using hfirst

theorem trim_append (hlast : ∃ c ∈ l.getLast?, isBlank c = false) (s : List Char) :
    trim (l ++ s) = trim l ++ trimRight s := by
  obtain ⟨c, hc, hblank⟩ := hlast
  obtain ⟨front, rfl⟩ := List.getLast?_eq_some_iff.mp hc
  have hleft : ∀ s, trimLeft (front ++ [c] ++ s) = trimLeft (front ++ [c]) ++ s := by
    intro s
    have hne : (trimLeft (front ++ [c])).isEmpty = false := by
      rw [Bool.eq_false_iff, ne_eq, List.isEmpty_iff, trimLeft_eq_nil_iff]
      intro hall
      rw [hall c (by simp)] at hblank
      cases hblank
    rw [trimLeft, List.dropWhile_append, ← trimLeft, hne, if_neg (by simp)]
  have hend : ∀ d ∈ (trimLeft (front ++ [c])).getLast?, isBlank d = false := by
    intro d hd
    have hsuffix : trimLeft (front ++ [c]) <:+ front ++ [c] := List.dropWhile_suffix _
    obtain ⟨gone, hgone⟩ := hsuffix
    have hwhole : (gone ++ trimLeft (front ++ [c])).getLast? = some d := by
      rw [List.getLast?_append, Option.mem_def.mp hd]
      rfl
    rw [hgone, List.getLast?_concat] at hwhole
    rwa [← Option.some.inj hwhole]
  rw [trim, hleft, trimRight_append hend, trim, trimRight_eq hend]

theorem exists_lastLine (hlast : t.getLast? ≠ some '\n') (hne : t ≠ []) (acc : List Char) :
    ∃ ls l, linesFrom acc t = ls ++ [l] ∧ l.getLast? = t.getLast? ∧
      ∀ s, linesFrom acc (t ++ s) = ls ++ linesFrom l.reverse s := by
  induction t generalizing acc with
  | nil => exact absurd rfl hne
  | cons c t ih =>
    by_cases ht : t = []
    · subst ht
      have hc : c ≠ '\n' := by simpa using hlast
      refine ⟨[], (c :: acc).reverse, ?_, ?_, ?_⟩
      · rw [linesFrom, if_neg hc, linesFrom, if_neg (by simp), List.nil_append]
      · rw [List.reverse_cons, List.getLast?_concat, List.getLast?_singleton]
      · intro s
        rw [List.singleton_append, linesFrom, if_neg hc, List.reverse_reverse, List.nil_append]
    · have htail : (c :: t).getLast? = t.getLast? := List.getLast?_cons_of_ne_nil ht
      rw [htail] at hlast ⊢
      simp only [List.cons_append, linesFrom]
      split
      · obtain ⟨ls, l, hlines, hl, happend⟩ := ih hlast ht []
        refine ⟨closeLine acc :: ls, l, ?_, hl, ?_⟩
        · rw [hlines, List.cons_append]
        · intro s
          rw [happend s, List.cons_append]
      · exact ih hlast ht (c :: acc)

theorem exists_firstLine (hne : acc ≠ []) (s : List Char) :
    ∃ l ls, linesFrom acc s = l :: ls ∧
    ∀ before, linesFrom (acc ++ before) s = (before.reverse ++ l) :: ls := by
  induction s generalizing acc with
  | nil =>
    refine ⟨acc.reverse, [], ?_, ?_⟩
    · rw [linesFrom, if_neg (by simpa using hne)]
    · intro before
      rw [linesFrom, if_neg (by simp [hne]), List.reverse_append]
  | cons c s ih =>
    simp only [linesFrom]
    split
    · refine ⟨closeLine acc, linesFrom [] s, rfl, ?_⟩
      intro before
      obtain ⟨d, acc, rfl⟩ := List.exists_cons_of_ne_nil hne
      rw [List.cons_append, closeLine.eq_def, closeLine.eq_def]
      by_cases hd : d = '\r'
      · subst hd
        simp
      · simp [hd]
    · exact ih (List.cons_ne_nil c acc)

theorem lines_join (hlast : t.getLast? ≠ some '\n') (ht : t ≠ []) (hhead : s.head? ≠ some '\n')
    (hs : s ≠ []) :
    ∃ ls l l' ls', lines t = ls ++ [l] ∧ l.getLast? = t.getLast? ∧ lines s = l' :: ls' ∧
      lines (t ++ s) = ls ++ (l ++ l') :: ls' := by
  obtain ⟨ls, l, hlines, hl, happend⟩ := exists_lastLine hlast ht []
  obtain ⟨c, s, rfl⟩ := List.exists_cons_of_ne_nil hs
  have hc : c ≠ '\n' := by simpa using hhead
  obtain ⟨l', ls', hfirst, hjoin⟩ := exists_firstLine (List.cons_ne_nil c []) s
  refine ⟨ls, l, l', ls', hlines, hl, ?_, ?_⟩
  · rw [lines, linesFrom, if_neg hc, hfirst]
  · rw [lines, happend, linesFrom, if_neg hc, ← List.singleton_append, hjoin, List.reverse_reverse]

end NoiseTimeline.Text
