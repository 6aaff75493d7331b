import NoiseTimeline.Proofs.Number.Digits
import NoiseTimeline.Text.Blank
import NoiseTimeline.Text.Lines

/-! Lines written one after the other are read as these lines, and a text that
neither starts nor ends with a blank is left alone by trimming. -/

namespace NoiseTimeline.Text

/-- Decided from the characters of the text, not from all that there are. -/
instance (priority := high) decidableForallMem {p : Char → Prop} [DecidablePred p] (s : List Char) :
    Decidable (∀ c ∈ s, p c) :=
  List.decidableBAll p s

@[simp]
theorem toString_self (s : String) : toString s = s := rfl

theorem linesFrom_append {l : List Char} (hl : '\n' ∉ l) (acc s : List Char) :
    linesFrom acc (l ++ '\n' :: s) = closeLine (l.reverse ++ acc) :: lines s := by
  induction l generalizing acc with
  | nil => rfl
  | cons c l ih =>
    have hc : c ≠ '\n' := fun h => hl (h ▸ List.mem_cons_self)
    have ht := ih (fun h => hl (List.mem_cons_of_mem _ h)) (c :: acc)
    rw [List.cons_append, linesFrom, if_neg hc, ht]
    simp

theorem lines_append {l : List Char} (hl : '\n' ∉ l) (s : List Char) :
    lines (l ++ '\n' :: s) = closeLine l.reverse :: lines s := by
  rw [lines, linesFrom_append hl, List.append_nil]

theorem lines_append_crlf {l : List Char} (hl : '\n' ∉ l) (s : List Char) :
    lines (l ++ '\r' :: '\n' :: s) = l :: lines s := by
  have h := lines_append (l := l ++ ['\r']) (by simp [hl]) s
  rw [List.append_assoc] at h
  rw [show l ++ '\r' :: '\n' :: s = l ++ (['\r'] ++ '\n' :: s) from rfl, h, List.reverse_append]
  simp [closeLine]

theorem closeLine_eq {acc : List Char} (h : '\r' ∉ acc) : closeLine acc = acc.reverse := by
  unfold closeLine
  split
  · exact absurd List.mem_cons_self h
  · rfl

theorem flatMap_linesFrom {acc s : List Char} (hacc : '\r' ∉ acc) (hs : '\r' ∉ s) :
    (linesFrom acc (s ++ ['\n'])).flatMap (· ++ ['\n']) = acc.reverse ++ (s ++ ['\n']) := by
  induction s generalizing acc with
  | nil =>
    rw [List.nil_append, linesFrom, if_pos rfl, closeLine_eq hacc]
    exact List.append_nil _
  | cons c s ih =>
    obtain ⟨hc, hs⟩ := not_or.mp (mt List.mem_cons.mpr hs)
    rw [List.cons_append, linesFrom]
    by_cases hline : c = '\n'
    · rw [if_pos hline, closeLine_eq hacc, List.flatMap_cons, ih List.not_mem_nil hs, hline]
      simp
    · rw [if_neg hline, ih (mt List.mem_cons.mp (not_or.mpr ⟨hc, hacc⟩)) hs]
      simp

theorem trimLeft_eq {s : List Char} (h : ∀ c ∈ s.head?, isBlank c = false) : trimLeft s = s := by
  cases s with
  | nil => rfl
  | cons c s => exact List.dropWhile_cons_of_neg (by simp [h c rfl])

theorem trimRight_eq {s : List Char}
    (h : ∀ c ∈ s.getLast?, isBlank c = false) : trimRight s = s := by
  have hrev : trimLeft s.reverse = s.reverse := trimLeft_eq (by simpa using h)
  rw [trimRight, show s.reverse.dropWhile isBlank = s.reverse from hrev, List.reverse_reverse]

theorem trim_eq {s : List Char} (hhead : ∀ c ∈ s.head?, isBlank c = false)
    (hlast : ∀ c ∈ s.getLast?, isBlank c = false) : trim s = s := by
  rw [trim, trimLeft_eq hhead, trimRight_eq hlast]

theorem trim_of_no_blank {s : List Char} (h : ∀ c ∈ s, isBlank c = false) : trim s = s :=
  trim_eq (fun c hc => h c (List.mem_of_head? hc)) (fun c hc => h c (List.mem_of_mem_getLast? hc))

theorem isBlank_of_isDigit {c : Char} (h : isDigit c = true) : isBlank c = false := by
  rw [isDigit_eq, Char.isDigit, Bool.and_eq_true, decide_eq_true_eq, decide_eq_true_eq] at h
  have h1 : 48 ≤ c.toNat := h.1
  have h2 : c.toNat ≤ 57 := h.2
  simp only [isBlank, Bool.or_eq_false_iff, Bool.and_eq_false_iff, decide_eq_false_iff_not,
    beq_eq_false_iff_ne]
  omega

end NoiseTimeline.Text
