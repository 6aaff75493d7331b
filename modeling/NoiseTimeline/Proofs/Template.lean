import NoiseTimeline.Proofs.Text.Layout
import NoiseTimeline.Proofs.Text.Substitution
import NoiseTimeline.Template

/-! Filling in a template. Placeholders filled in one after the other give the text of a
single pass, and what is refused is named by its first opening pair of braces. The window
has no say in it: neither placeholders nor braces can form around numbers. -/

namespace NoiseTimeline.Template

theorem sameButNumbers_foldl {ps qs : List (List Char × List Char)}
    (h : List.Forall₂ (fun p q => p.1 = q.1 ∧ Text.IsMark p.1 ∧ Text.SameButNumbers p.2 q.2) ps qs)
    {s t : List Char} (hst : Text.SameButNumbers s t) :
    Text.SameButNumbers (ps.foldl (fun text (name, value) => Text.replaceAll name value text) s)
      (qs.foldl (fun text (name, value) => Text.replaceAll name value text) t) := by
  induction h generalizing s t with
  | nil => exact hst
  | cons hpq _ ih =>
    rename_i p q ps qs
    obtain ⟨name, value⟩ := p
    obtain ⟨hname, hmark, hvalue⟩ := hpq
    dsimp only at hname
    subst hname
    exact ih (hvalue.replaceAll hmark hst)

theorem sameButNumbers_toString (m n : Nat) :
    Text.SameButNumbers (toString m).toList (toString n).toList := by
  rw [Decimal.toList_toString, Decimal.toList_toString]
  exact .of_numbers (Text.isNumber_digitTexts m) (Text.isNumber_digitTexts n)

theorem sameButNumbers_fill (c : RunConfig) (v w : Window) (template : List Char) :
    Text.SameButNumbers (fill (.ofWindow c v) template) (fill (.ofWindow c w) template) := by
  have hmark : ∀ name ∈ ["SIZE", "PROPERTY", "THRESHOLD", "CLK_LOW", "CLK_HIGH", "STRIDE", "FLITS"],
      Text.IsMark (placeholder name) := by
    decide
  refine sameButNumbers_foldl ?_ (.refl template)
  exact .cons ⟨rfl, hmark "SIZE" (by simp), .refl _⟩ <|
    .cons ⟨rfl, hmark "PROPERTY" (by simp), .refl _⟩ <|
    .cons ⟨rfl, hmark "THRESHOLD" (by simp), .refl _⟩ <|
    .cons ⟨rfl, hmark "CLK_LOW" (by simp), sameButNumbers_toString v.lower w.lower⟩ <|
    .cons ⟨rfl, hmark "CLK_HIGH" (by simp), sameButNumbers_toString v.upper w.upper⟩ <|
    .cons ⟨rfl, hmark "STRIDE" (by simp), .refl _⟩ <|
    .cons ⟨rfl, hmark "FLITS" (by simp), .refl _⟩ .nil

theorem render_eq_ok_iff (template : String) (request : RenderRequest) :
    (∃ text, render template request = .ok text) ↔ ¬ opening <:+: fill request template.toList := by
  rw [← Text.contains_iff_infix, Text.contains, render]
  cases Text.splitAt? opening (fill request template.toList) <;> simp

/-- A template renders for all windows or for none. -/
theorem render_eq_ok_congr (template : String) (c : RunConfig) (v w : Window) :
    (∃ text, render template (.ofWindow c v) = .ok text) ↔
    ∃ text, render template (.ofWindow c w) = .ok text := by
  have hopening : Text.IsMark opening := by decide
  rw [render_eq_ok_iff, render_eq_ok_iff,
    (sameButNumbers_fill c v w template.toList).infix_iff hopening]

def placeholderNames : List String :=
  ["SIZE", "PROPERTY", "THRESHOLD", "CLK_LOW", "CLK_HIGH", "STRIDE", "FLITS"]

theorem map_fst_substitutions (r : RenderRequest) :
    (substitutions r).map Prod.fst = placeholderNames.map placeholder := rfl

theorem substitutions_name_ne_nil (r : RenderRequest) : ∀ e ∈ substitutions r, e.1 ≠ [] := by
  have hnames : ∀ name ∈ placeholderNames.map placeholder, name ≠ [] := by decide
  intro e he
  exact hnames e.1 (map_fst_substitutions r ▸ List.mem_map_of_mem he)

/-- A value with nothing of a placeholder in it. -/
def IsForeign (value : List Char) : Prop :=
  value ≠ [] ∧ ∀ name ∈ placeholderNames.map placeholder, ∀ c ∈ value, c ∉ name

theorem isForeign_toString (n : Nat) : IsForeign (toString n).toList := by
  have hdigits : ∀ name ∈ placeholderNames.map placeholder, ∀ c ∈ name, isDigit c = false := by
    decide
  rw [Decimal.toList_toString]
  refine ⟨Decimal.digitTexts_ne_nil n, fun name hname c hc hmem => ?_⟩
  exact absurd (Decimal.isDigit_of_mem_digitTexts hc) (by simp [hdigits name hname c hmem])

theorem isForeign_token (p : NoiseProperty) : IsForeign p.token.toList := by
  unfold IsForeign
  cases p <;> decide

theorem substitutions_pairwise (r : RenderRequest) :
    (substitutions r).Pairwise Text.LeavesWhole := by
  have hapart : ((substitutions r).map Prod.fst).Pairwise Text.Apart := by
    rw [map_fst_substitutions]
    decide
  have hforeign : ∀ e ∈ (substitutions r).dropLast, IsForeign e.2 := by
    simp only [substitutions, List.dropLast_cons_cons, List.dropLast_singleton,
      List.forall_mem_cons]
    exact ⟨isForeign_toString _, isForeign_token _, isForeign_toString _, isForeign_toString _,
      isForeign_toString _, isForeign_toString _, List.forall_mem_nil _⟩
  refine Text.pairwise_leavesWhole hapart fun e he => ?_
  obtain ⟨hfilled, hno⟩ := hforeign e he
  exact ⟨hfilled, fun f hf => hno f.1 (map_fst_substitutions r ▸ List.mem_map_of_mem hf)⟩

/-- The placeholder that a text is refused for: from the first opening pair of braces to the next
closing pair, or to the end of the line if there is none. -/
def IsUnresolved (text found : List Char) : Prop :=
  ∃ before rest, Text.SplitsAt opening text before rest ∧
    ((∃ name after, Text.SplitsAt closing rest name after ∧ found = opening ++ (name ++ closing)) ∨
      ¬ closing <:+: rest ∧ Text.IsFirstLine found (opening ++ rest))

theorem isUnresolved_unresolvedIn {text before rest : List Char}
    (h : Text.SplitsAt opening text before rest) :
    IsUnresolved text (unresolvedIn rest) ∧ opening <+: unresolvedIn rest := by
  rw [unresolvedIn]
  cases hclosing : Text.splitAt? closing rest with
  | some split =>
    have hsplit := Text.splitsAt_of_splitAt? (List.cons_ne_nil _ _) hclosing
    dsimp only
    rw [List.append_assoc]
    exact ⟨⟨before, rest, h, Or.inl ⟨_, _, hsplit, rfl⟩⟩, List.prefix_append _ _⟩
  | none =>
    have hnone : ¬ closing <:+: rest := by
      rw [← Text.contains_iff_infix, Text.contains, hclosing]
      decide
    have hne : opening ++ rest ≠ [] := List.cons_ne_nil _ _
    obtain ⟨line, hline⟩ := Text.exists_head?_lines hne
    have hfirst := Text.isFirstLine_of_lines hline
    simp only [hline, Option.getD_some]
    exact ⟨⟨before, rest, h, Or.inr ⟨hnone, hfirst⟩⟩,
      hfirst.prefix_of_append (by decide) (by decide)⟩

/-- Filling in the placeholders one after the other gives the text of one pass over the template,
whatever the flits are. It is the model unless an opening pair of braces is left in it. -/
theorem render_substitutes_once (template : String) (r : RenderRequest) :
    (∀ text, Text.Substituted (substitutions r) template.toList text ↔
      text = fill r template.toList) ∧
    (∀ text, render template r = .ok text ↔
      text = String.ofList (fill r template.toList) ∧ ¬ opening <:+: fill r template.toList) ∧
    (opening <:+: fill r template.toList →
      ∃ found, opening <+: found ∧ IsUnresolved (fill r template.toList) found ∧
        render template r = .error (.unresolvedPlaceholder (String.ofList found))) := by
  refine ⟨fun text => Text.substituted_iff (substitutions_name_ne_nil r)
    (substitutions_pairwise r), ?_, ?_⟩
  · intro text
    rw [← Text.contains_iff_infix, Text.contains, render]
    cases Text.splitAt? opening (fill r template.toList) <;> simp [eq_comm]
  · rw [← Text.contains_iff_infix, Text.contains]
    intro hopening
    obtain ⟨⟨before, rest⟩, hsplit⟩ := Option.isSome_iff_exists.mp hopening
    obtain ⟨hunresolved, hstarts⟩ :=
      isUnresolved_unresolvedIn (Text.splitsAt_of_splitAt? (List.cons_ne_nil _ _) hsplit)
    refine ⟨_, hstarts, hunresolved, ?_⟩
    rw [render, hsplit]

def hostileRequest : RenderRequest := ⟨2, .irDrop, 1, ⟨0, 49⟩, 1, some "\x7b\x7bSIZE\x7d\x7d"⟩

def hostileTemplate : String := "\x7b\x7bFLITS\x7d\x7d on \x7b\x7bSIZE\x7d\x7d"

/-- Flits that read like a placeholder are not filled in; the text is refused for them. -/
theorem hostileRequest_substitutes_once :
    Text.Substituted (substitutions hostileRequest) hostileTemplate.toList
      "\x7b\x7bSIZE\x7d\x7d on 2".toList ∧
    ∃ found, opening <+: found ∧ IsUnresolved "\x7b\x7bSIZE\x7d\x7d on 2".toList found ∧
      render hostileTemplate hostileRequest =
        .error (.unresolvedPlaceholder (String.ofList found)) := by
  have hfill : fill hostileRequest hostileTemplate.toList = "\x7b\x7bSIZE\x7d\x7d on 2".toList := by
    decide +kernel
  have hopening : opening <:+: "\x7b\x7bSIZE\x7d\x7d on 2".toList := by decide
  obtain ⟨honce, -, hrefused⟩ := render_substitutes_once hostileTemplate hostileRequest
  rw [hfill] at hrefused
  exact ⟨(honce _).mpr hfill.symm, hrefused hopening⟩

end NoiseTimeline.Template
