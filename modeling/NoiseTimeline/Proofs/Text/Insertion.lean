import NoiseTimeline.Proofs.Text.Seam

/-! Texts with something put into them. What stands between two line feeds is read as one line,
apart from a carriage return, so a text without line feeds that is put in changes one line only. -/

namespace NoiseTimeline.Text

variable {s a b x l m : List Char}

theorem splitOn_append_newline (a b : List Char) :
    (a ++ '\n' :: b).splitOn '\n' = a.splitOn '\n' ++ b.splitOn '\n' :=
  List.splitOnP_append_cons a b (by decide)

theorem splitOn_of_no_newline (h : '\n' ∉ l) : l.splitOn '\n' = [l] := by
  apply List.splitOnP_eq_singleton
  intro c hc
  rw [beq_eq_false_iff_ne]
  rintro rfl
  exact h hc

theorem lines_splitOn (s : List Char) :
    (∃ ls, (lines s).map trim = ls ∧ (s.splitOn '\n').map trim = ls) ∨
    ∃ ls, (lines s).map trim = ls ∧ (s.splitOn '\n').map trim = ls ++ [[]] := by
  by_cases hfeed : '\n' ∈ s
  · obtain ⟨l, r, rfl, hl⟩ := List.eq_append_cons_of_mem hfeed
    have hlines : (lines (l ++ '\n' :: r)).map trim = trim l :: (lines r).map trim := by
      rw [lines_append hl, List.map_cons, trim_closeLine]
    have hpieces : ((l ++ '\n' :: r).splitOn '\n').map trim =
        trim l :: (r.splitOn '\n').map trim := by
      rw [splitOn_append_newline, splitOn_of_no_newline hl, List.singleton_append, List.map_cons]
    rw [hlines, hpieces]
    rcases lines_splitOn r with ⟨ls, hls, hpieces⟩ | ⟨ls, hls, hpieces⟩
    · exact Or.inl ⟨trim l :: ls, by rw [hls], by rw [hpieces]⟩
    · exact Or.inr ⟨trim l :: ls, by rw [hls], by rw [hpieces, List.cons_append]⟩
  · rw [splitOn_of_no_newline hfeed]
    by_cases hempty : s = []
    · subst hempty
      exact Or.inr ⟨[], rfl, rfl⟩
    · rw [lines, linesFrom_last hfeed [] hempty]
      exact Or.inl ⟨[trim s], rfl, rfl⟩
termination_by s.length
decreasing_by
  subst_vars
  simp
  omega

/-- The first line and the filled ones after it are the first piece and the filled ones after
that. -/
theorem first_and_filled_lines (s : List Char) :
    trim ((lines s).headD []) = trim ((s.splitOn '\n').headD []) ∧
    filled (lines s).tail = filled (s.splitOn '\n').tail := by
  have hsheet : ∀ ls : List (List Char), trim (ls.headD []) = (ls.map trim).headD [] ∧
      filled ls.tail = (ls.map trim).tail.filter (· ≠ []) := by
    intro ls
    cases ls <;> exact ⟨rfl, rfl⟩
  rw [(hsheet _).1, (hsheet _).2, (hsheet _).1, (hsheet _).2]
  rcases lines_splitOn s with ⟨ls, hlines, hpieces⟩ | ⟨ls, hlines, hpieces⟩
  · rw [hlines, hpieces]
    exact ⟨rfl, rfl⟩
  · rw [hlines, hpieces]
    cases ls with
    | nil => exact ⟨rfl, rfl⟩
    | cons l ls =>
      refine ⟨rfl, ?_⟩
      rw [List.cons_append, List.tail_cons, List.tail_cons, List.filter_append]
      simp

theorem exists_last_piece (a : List Char) : ∃ front l, l <:+ a ∧ '\n' ∉ l ∧
    ∀ s, (a ++ s).splitOn '\n' = front ++ (l ++ s).splitOn '\n' := by
  by_cases hfeed : '\n' ∈ a
  · obtain ⟨r, u, hr, hfree⟩ := List.eq_append_cons_of_mem (List.mem_reverse.mpr hfeed)
    obtain rfl : a = u.reverse ++ '\n' :: r.reverse := by
      rw [← List.reverse_reverse a, hr, List.reverse_append, List.reverse_cons, List.append_assoc,
        List.singleton_append]
    refine ⟨u.reverse.splitOn '\n', r.reverse, ?_, by rwa [List.mem_reverse], ?_⟩
    · exact (List.suffix_cons _ _).trans (List.suffix_append _ _)
    · intro s
      rw [List.append_assoc, List.cons_append, splitOn_append_newline]
  · exact ⟨[], a, List.suffix_rfl, hfeed, fun s => rfl⟩

theorem exists_first_piece (b : List Char) : ∃ m back, m <+: b ∧ '\n' ∉ m ∧
    ∀ l, '\n' ∉ l → (l ++ b).splitOn '\n' = (l ++ m) :: back := by
  by_cases hfeed : '\n' ∈ b
  · obtain ⟨m, v, rfl, hm⟩ := List.eq_append_cons_of_mem hfeed
    refine ⟨m, v.splitOn '\n', List.prefix_append _ _, hm, fun l hl => ?_⟩
    have hjoined : '\n' ∉ l ++ m := by
      rw [List.mem_append, not_or]
      exact ⟨hl, hm⟩
    rw [← List.append_assoc, splitOn_append_newline, splitOn_of_no_newline hjoined,
      List.singleton_append]
  · refine ⟨b, [], List.prefix_rfl, hfeed, fun l hl => splitOn_of_no_newline ?_⟩
    rw [List.mem_append, not_or]
    exact ⟨hl, hfeed⟩

/-- A line starts after this text. -/
def BeforeLine (a : List Char) : Prop := a = [] ∨ ∃ r, a = r ++ ['\n']

/-- A line ends before this text. -/
def AfterLine (b : List Char) : Prop := b = [] ∨ (∃ r, b = '\n' :: r) ∨ ∃ r, b = '\r' :: '\n' :: r

theorem BeforeLine.last_piece (ha : BeforeLine a) (hl : l <:+ a) (hfeed : '\n' ∉ l) : l = [] := by
  rcases ha with rfl | ⟨r, rfl⟩
  · exact List.suffix_nil.mp hl
  · rcases List.suffix_concat_iff.mp hl with hnil | ⟨t, rfl, -⟩
    · exact hnil
    · exact absurd (List.mem_append_right t (List.mem_singleton_self _)) hfeed

theorem AfterLine.first_piece (hb : AfterLine b) (hm : m <+: b)
    (hfeed : '\n' ∉ m) : AllBlank m := by
  have hnil : ∀ {r : List Char}, ∀ m, m <+: '\n' :: r → '\n' ∉ m → m = [] := by
    intro r m hm hfeed
    cases m with
    | nil => rfl
    | cons c m =>
      obtain rfl : c = '\n' := (List.cons_prefix_cons.mp hm).1
      exact absurd List.mem_cons_self hfeed
  rcases hb with rfl | ⟨r, rfl⟩ | ⟨r, rfl⟩
  · rw [List.prefix_nil.mp hm]
    decide
  · rw [hnil m hm hfeed]
    decide
  · cases m with
    | nil => decide
    | cons c m =>
      obtain ⟨rfl, hrest⟩ := List.cons_prefix_cons.mp hm
      rw [hnil m hrest fun hmem => hfeed (List.mem_cons_of_mem _ hmem)]
      decide

end NoiseTimeline.Text
