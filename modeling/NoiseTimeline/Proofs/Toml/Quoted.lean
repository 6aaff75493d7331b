import Mathlib.Data.List.TakeWhile
import NoiseTimeline.Toml.Quoted

/-! Texts in quotes read back. Whatever form a text is written in, the reader takes
just this text out of the quotes and stops behind them. -/

namespace NoiseTimeline.Toml

variable {c quote : Char} {s body rest acc : List Char} {fuel j : Nat}

theorem unicode?_append {ds : List Char} (hdigits : ds.all (isDigitOf 16) = true)
    (hvalue : inBase 16 ds = c.toNat) (r : List Char) :
    unicode? ds.length (ds ++ r) = some (c, r) := by
  have hvalid : (inBase 16 ds).isValidChar := by
    rw [hvalue]
    exact c.valid
  have hchar : Char.ofNatAux (inBase 16 ds) hvalid = c := by
    apply Char.ext
    apply UInt32.toNat_inj.mp
    exact hvalue
  unfold unicode?
  dsimp only
  rw [List.take_left, List.drop_left, if_pos ⟨rfl, hdigits⟩, dif_pos hvalid, hchar]

theorem codeText_spec : ∀ n < 128, (n < 0x20 ∨ n = 0x7f) → (codeText n).length = 4 ∧
    (codeText n).all (isDigitOf 16) = true ∧ inBase 16 (codeText n) = n ∧ '\r' ∉ codeText n := by
  decide +kernel

theorem toNat_of_isControl (h : isControl c = true) : c.toNat < 0x20 ∨ c.toNat = 0x7f := by
  simp only [isControl, Bool.or_eq_true, Bool.and_eq_true, decide_eq_true_eq, beq_iff_eq] at h
  exact h.imp And.left id

/-- A character is written as it is, or as an escape that stands for it. -/
theorem escapeOf_cases (c : Char) : (escapeOf c = [c] ∧ isControl c = false ∧ c ≠ '\\') ∨
    ∃ e, escapeOf c = '\\' :: e ∧ '\r' ∉ e ∧ ∀ r, unescape? (e ++ r) = some (c, r) := by
  unfold escapeOf
  split
  · exact Or.inr ⟨_, rfl, by decide, fun r => rfl⟩
  · exact Or.inr ⟨_, rfl, by decide, fun r => rfl⟩
  · exact Or.inr ⟨_, rfl, by decide, fun r => rfl⟩
  · exact Or.inr ⟨_, rfl, by decide, fun r => rfl⟩
  · exact Or.inr ⟨_, rfl, by decide, fun r => rfl⟩
  · exact Or.inr ⟨_, rfl, by decide, fun r => rfl⟩
  · rename_i hplain
    by_cases hcontrol : isControl c = true
    · rw [if_pos hcontrol]
      have hcode := toNat_of_isControl hcontrol
      obtain ⟨hlength, hdigits, hvalue, hreturn⟩ := codeText_spec c.toNat (by omega) hcode
      refine Or.inr ⟨'u' :: codeText c.toNat, rfl, by simpa using hreturn, fun r => ?_⟩
      have hread := unicode?_append hdigits hvalue r
      rwa [hlength] at hread
    · rw [if_neg hcontrol]
      exact Or.inl ⟨rfl, by simpa using hcontrol, hplain⟩

theorem not_mem_escapeOf (c : Char) : '\r' ∉ escapeOf c := by
  rcases escapeOf_cases c with ⟨hself, hcontrol, -⟩ | ⟨e, he, hreturn, -⟩
  · rw [hself, List.mem_singleton]
    rintro rfl
    exact absurd hcontrol (by decide)
  · rw [he]
    simpa using hreturn

theorem not_mem_escapedFrom (isLong : Bool) (limit run : Nat) (s : List Char) :
    '\r' ∉ escapedFrom isLong limit run s := by
  induction s generalizing run with
  | nil => exact List.not_mem_nil
  | cons c s ih =>
    rw [escapedFrom]
    split
    · split
      · simpa using ih 0
      · simpa using ih (run + 1)
    · split
      · simpa using ih 0
      · rw [List.mem_append, not_or]
        exact ⟨not_mem_escapeOf c, ih 0⟩

/-! Double quotes. -/

theorem basicFrom?_escape {e : List Char} (he : ∀ r, unescape? (e ++ r) = some (c, r)) (fuel : Nat)
    (acc r : List Char) :
    basicFrom? (fuel + 1) acc ('\\' :: (e ++ r)) = basicFrom? fuel (c :: acc) r := by
  rw [basicFrom?, he]
  rfl

theorem basicFrom?_plain (hquote : c ≠ '"') (hslash : c ≠ '\\') (hcontrol : isControl c = false)
    (fuel : Nat) (acc r : List Char) :
    basicFrom? (fuel + 1) acc (c :: r) = basicFrom? fuel (c :: acc) r := by
  rw [basicFrom?]
  · rw [if_neg (by simp [hcontrol])]
  · exact hquote
  · exact hslash

theorem basicFrom?_escaped (run : Nat) (s rest : List Char) (acc : List Char)
    (hfuel : (escapedFrom false 0 run s).length < fuel) :
    basicFrom? fuel acc (escapedFrom false 0 run s ++ '"' :: rest) =
      some (acc.reverse ++ s, rest) := by
  induction s generalizing run acc fuel with
  | nil =>
    obtain ⟨fuel, rfl⟩ := Nat.exists_eq_succ_of_ne_zero (Nat.ne_of_gt hfuel)
    rw [List.append_nil]
    rfl
  | cons c s ih =>
    obtain ⟨fuel, rfl⟩ := Nat.exists_eq_succ_of_ne_zero (Nat.ne_zero_of_lt hfuel)
    have hnext : (escapedFrom false 0 0 s).length < fuel →
        basicFrom? fuel (c :: acc) (escapedFrom false 0 0 s ++ '"' :: rest) =
          some (acc.reverse ++ c :: s, rest) := by
      intro hless
      rw [ih 0 (c :: acc) hless, List.reverse_cons, List.append_assoc, List.singleton_append]
    rw [escapedFrom] at hfuel ⊢
    by_cases hquote : c = '"'
    · rw [if_pos hquote, if_pos (Nat.zero_le run)] at hfuel ⊢
      subst hquote
      refine hnext ?_
      simp only [List.length_cons] at hfuel
      omega
    · rw [if_neg hquote, if_neg (by simp)] at hfuel ⊢
      rcases escapeOf_cases c with ⟨hself, hcontrol, hslash⟩ | ⟨e, he, -, hread⟩
      · rw [hself, List.singleton_append] at hfuel ⊢
        rw [List.cons_append, basicFrom?_plain hquote hslash hcontrol]
        exact hnext (Nat.lt_of_succ_lt_succ hfuel)
      · rw [he, List.cons_append] at hfuel ⊢
        rw [List.cons_append, List.append_assoc, basicFrom?_escape hread]
        refine hnext ?_
        simp only [List.length_cons, List.length_append] at hfuel
        omega

theorem quoted?_of_quote {r : List Char} (h : ∀ r', r ≠ '"' :: '"' :: r') :
    quoted? ('"' :: r) = basicFrom? (r.length + 1) [] r := by
  unfold quoted?
  split
  · rename_i r' heq
    exact absurd (List.cons.inj heq).2 (h r')
  · rename_i heq
    cases heq
  · rename_i heq
    cases heq
    rfl
  · rename_i heq
    cases heq
  · rename_i hne _
    exact absurd rfl (hne r)

theorem quoted?_basic (s rest : List Char) (hrest : ∀ d ∈ rest.head?, d ≠ '"') :
    quoted? (basic s ++ rest) = some (s, rest) := by
  have hopen : ∀ r, escapedFrom false 0 0 s ++ '"' :: rest ≠ '"' :: '"' :: r := by
    intro r heq
    cases s with
    | nil => exact hrest '"' (by simp [(List.cons.inj heq).2]) rfl
    | cons c s =>
      rw [escapedFrom] at heq
      by_cases hquote : c = '"'
      · rw [if_pos hquote, if_pos (Nat.le_refl 0)] at heq
        cases heq
      · rw [if_neg hquote, if_neg (by simp)] at heq
        rcases escapeOf_cases c with ⟨hself, -, -⟩ | ⟨e, he, -, -⟩
        · rw [hself] at heq
          exact hquote (List.cons.inj heq).1
        · rw [he] at heq
          cases heq
  rw [basic, List.append_assoc, List.singleton_append, List.cons_append, quoted?_of_quote hopen]
  exact basicFrom?_escaped 0 s rest [] (by simp only [List.length_append]; omega)

/-! Single quotes. -/

theorem literalFrom?_append (hquote : '\'' ∉ s) (hcontrol : ∀ d ∈ s, isControl d = false)
    (acc rest : List Char) :
    literalFrom? acc (s ++ '\'' :: rest) = some (acc.reverse ++ s, rest) := by
  induction s generalizing acc with
  | nil => simp [literalFrom?]
  | cons c s ih =>
    have hc : c ≠ '\'' := fun h => hquote (h ▸ List.mem_cons_self)
    have hnext :=
      ih (fun h => hquote (List.mem_cons_of_mem c h))
        (fun d hd => hcontrol d (List.mem_cons_of_mem c hd)) (c :: acc)
    rw [List.cons_append, literalFrom?, if_neg hc,
      if_neg (by simp [hcontrol c List.mem_cons_self]), hnext]
    simp

theorem quoted?_literal (hquote : '\'' ∉ s) (hcontrol : ∀ d ∈ s, isControl d = false)
    (hrest : ∀ d ∈ rest.head?, d ≠ '\'') :
    quoted? (literal s ++ rest) = some (s, rest) := by
  have hopen : ∀ r, s ++ '\'' :: rest ≠ '\'' :: '\'' :: r := by
    intro r heq
    cases s with
    | nil => exact hrest '\'' (by simp [(List.cons.inj heq).2]) rfl
    | cons c s => exact hquote ((List.cons.inj heq).1 ▸ List.mem_cons_self)
  have hread : quoted? ('\'' :: (s ++ '\'' :: rest)) = literalFrom? [] (s ++ '\'' :: rest) := by
    unfold quoted?
    split
    · rename_i heq
      cases heq
    · rename_i r heq
      exact absurd (List.cons.inj heq).2 (hopen r)
    · rename_i heq
      cases heq
    · rename_i heq
      cases heq
      rfl
    · rename_i hne
      exact absurd rfl (hne _)
  rw [literal, List.append_assoc, List.singleton_append, List.cons_append, hread,
    literalFrom?_append hquote hcontrol]
  rfl

/-! Three quotes. -/

theorem afterLineEnd?_eq_none (h : ∀ d ∈ s.head?, d ≠ '\n' ∧ d ≠ '\r') :
    afterLineEnd? s = none := by
  unfold afterLineEnd?
  split
  · exact absurd rfl (h '\n' rfl).1
  · exact absurd rfl (h '\r' rfl).2
  · rfl

theorem ne_of_isControl_eq_false (h : isControl c = false) : c ≠ '\n' ∧ c ≠ '\r' := by
  constructor
  · rintro rfl
    exact absurd h (by decide)
  · rintro rfl
    exact absurd h (by decide)

theorem longFrom?_plain (hquote : c ≠ quote) (hcontrol : isControl c = false)
    (hslash : c = '\\' → quote ≠ '"') (fuel : Nat) (acc r : List Char) :
    longFrom? quote (fuel + 1) acc (c :: r) = longFrom? quote fuel (c :: acc) r := by
  have hline : afterLineEnd? (c :: r) = none := by
    apply afterLineEnd?_eq_none
    rintro d ⟨⟩
    exact ne_of_isControl_eq_false hcontrol
  rw [longFrom?, hline]
  dsimp only
  rw [if_neg hquote, if_neg fun h => hslash h.1 h.2, if_neg (by simp [hcontrol])]

theorem longFrom?_escape {e : List Char} (he : ∀ r, unescape? (e ++ r) = some (c, r)) (fuel : Nat)
    (acc r : List Char) :
    longFrom? '"' (fuel + 1) acc ('\\' :: (e ++ r)) = longFrom? '"' fuel (c :: acc) r := by
  have hline : afterLineEnd? ('\\' :: (e ++ r)) = none := rfl
  rw [longFrom?, hline]
  dsimp only
  rw [if_neg (by decide), if_pos ⟨rfl, rfl⟩, he]

theorem longFrom?_run (hj : 0 < j) (hquote : quote ≠ '\n' ∧ quote ≠ '\r')
    (hrest : ∀ d ∈ rest.head?, d ≠ quote) (fuel : Nat) (acc : List Char) :
    longFrom? quote (fuel + 1) acc (List.replicate j quote ++ rest) =
      if j < 3 then longFrom? quote fuel (List.replicate j quote ++ acc) rest
      else if j ≤ 5 then some ((List.replicate (j - 3) quote ++ acc).reverse, rest) else none := by
  have hrun : (List.replicate j quote ++ rest).takeWhile (· == quote) = List.replicate j quote := by
    rw [List.takeWhile_append_of_pos (by simp)]
    cases rest with
    | nil => simp
    | cons d rest => simp [hrest d rfl]
  obtain ⟨j, rfl⟩ := Nat.exists_eq_succ_of_ne_zero (Nat.ne_of_gt hj)
  rw [List.replicate_succ, List.cons_append] at hrun ⊢
  have hline : afterLineEnd? (quote :: (List.replicate j quote ++ rest)) = none := by
    apply afterLineEnd?_eq_none
    rintro d ⟨⟩
    exact hquote
  rw [longFrom?, hline]
  dsimp only
  rw [if_pos rfl, hrun, ← List.cons_append, ← List.replicate_succ, List.length_replicate,
    List.drop_replicate, List.drop_left' List.length_replicate]

theorem longFrom?_pending (hj : j ≤ 2) (hquote : quote ≠ '\n' ∧ quote ≠ '\r') (hc : c ≠ quote)
    (hfuel : j < fuel) (acc r : List Char) :
    ∃ fuel', fuel ≤ fuel' + j ∧ longFrom? quote fuel acc (List.replicate j quote ++ c :: r) =
      longFrom? quote fuel' (List.replicate j quote ++ acc) (c :: r) := by
  cases j with
  | zero => exact ⟨fuel, Nat.le_refl _, rfl⟩
  | succ j =>
    obtain ⟨fuel, rfl⟩ := Nat.exists_eq_succ_of_ne_zero (Nat.ne_zero_of_lt hfuel)
    have hrest : ∀ d ∈ (c :: r).head?, d ≠ quote := by
      rintro d ⟨⟩
      exact hc
    refine ⟨fuel, by omega, ?_⟩
    rw [longFrom?_run (Nat.succ_pos j) hquote hrest, if_pos (Nat.lt_succ_of_le hj)]

/-- How the inside of three quotes spells a text, `j` quotes having been written right before it. -/
inductive Spells (quote : Char) : Nat → List Char → List Char → Prop
  | done {j : Nat} : Spells quote j [] []
  | quote {j : Nat} {body s : List Char} (hj : j < 2) (h : Spells quote (j + 1) body s) :
      Spells quote j (quote :: body) (quote :: s)
  | lineEnd {j : Nat} {body s : List Char} (h : Spells quote 0 body s) :
      Spells quote j ('\n' :: body) ('\n' :: s)
  | plain {j : Nat} {c : Char} {body s : List Char} (hquote : c ≠ quote)
      (hcontrol : isControl c = false)
      (hslash : c = '\\' → quote ≠ '"') (h : Spells quote 0 body s) :
      Spells quote j (c :: body) (c :: s)
  | escape {j : Nat} {c : Char} {e body s : List Char} (hquote : quote = '"')
      (he : ∀ r, unescape? (e ++ r) = some (c, r)) (h : Spells quote 0 body s) :
      Spells quote j ('\\' :: (e ++ body)) (c :: s)

theorem Spells.longFrom?_eq (h : Spells quote j body s) (hj : j ≤ 2)
    (hquote : quote ≠ '\n' ∧ quote ≠ '\r' ∧ quote ≠ '\\') (hrest : ∀ d ∈ rest.head?, d ≠ quote)
    (hfuel : j + body.length + 3 < fuel) (acc : List Char) :
    longFrom? quote fuel acc (List.replicate j quote ++
      (body ++ (List.replicate 3 quote ++ rest))) =
      some (acc.reverse ++ (List.replicate j quote ++ s), rest) := by
  have hends : quote ≠ '\n' ∧ quote ≠ '\r' := ⟨hquote.1, hquote.2.1⟩
  have hmove : ∀ (j : Nat) (c : Char) (acc s : List Char),
      (c :: (List.replicate j quote ++ acc)).reverse ++ (List.replicate 0 quote ++ s) =
        acc.reverse ++ (List.replicate j quote ++ c :: s) := by
    intro j c acc s
    simp
  induction h generalizing fuel acc with
  | @done j =>
    have hall : List.replicate j quote ++ ([] ++ (List.replicate 3 quote ++ rest)) =
        List.replicate (j + 3) quote ++ rest := by
      rw [List.nil_append, ← List.append_assoc, List.replicate_append_replicate]
    obtain ⟨fuel, rfl⟩ := Nat.exists_eq_succ_of_ne_zero (Nat.ne_zero_of_lt hfuel)
    rw [hall, longFrom?_run (by omega) hends hrest, if_neg (by omega), if_pos (by omega),
      Nat.add_sub_cancel]
    simp
  | @quote j body s hlt h ih =>
    have hnext : ∀ l : List Char,
        List.replicate j quote ++ quote :: l = List.replicate (j + 1) quote ++ l := by
      intro l
      rw [List.replicate_succ', List.append_assoc, List.singleton_append]
    rw [List.cons_append, hnext, hnext]
    exact ih (by omega) (by simp only [List.length_cons] at hfuel; omega) acc
  | @lineEnd j body s h ih =>
    simp only [List.length_cons] at hfuel
    rw [List.cons_append]
    obtain ⟨fuel', hless, hrun⟩ :=
      longFrom?_pending hj hends hends.1.symm (show j < fuel by omega) acc
        (body ++ (List.replicate 3 quote ++ rest))
    obtain ⟨fuel', rfl⟩ := Nat.exists_eq_succ_of_ne_zero (show fuel' ≠ 0 by omega)
    have hstep : longFrom? quote (fuel' + 1) (List.replicate j quote ++ acc)
        ('\n' :: (body ++ (List.replicate 3 quote ++ rest))) =
        longFrom? quote fuel' ('\n' :: (List.replicate j quote ++ acc))
          (body ++ (List.replicate 3 quote ++ rest)) := rfl
    rw [hrun, hstep, ← hmove]
    exact ih (Nat.zero_le 2) (by omega) _
  | @plain j c body s hne hcontrol hslash h ih =>
    simp only [List.length_cons] at hfuel
    rw [List.cons_append]
    obtain ⟨fuel', hless, hrun⟩ := longFrom?_pending hj hends hne (show j < fuel by omega) acc
      (body ++ (List.replicate 3 quote ++ rest))
    obtain ⟨fuel', rfl⟩ := Nat.exists_eq_succ_of_ne_zero (show fuel' ≠ 0 by omega)
    rw [hrun, longFrom?_plain hne hcontrol hslash, ← hmove]
    exact ih (Nat.zero_le 2) (by omega) _
  | @escape j c e body s heq he h ih =>
    simp only [List.length_cons, List.length_append] at hfuel
    rw [List.cons_append, List.append_assoc]
    obtain ⟨fuel', hless, hrun⟩ :=
      longFrom?_pending hj hends hquote.2.2.symm (show j < fuel by omega) acc
        (e ++ (body ++ (List.replicate 3 quote ++ rest)))
    obtain ⟨fuel', rfl⟩ := Nat.exists_eq_succ_of_ne_zero (show fuel' ≠ 0 by omega)
    subst heq
    rw [hrun, longFrom?_escape he, ← hmove]
    exact ih (Nat.zero_le 2) (by omega) _

theorem Spells.head (h : Spells quote j body s) (hquote : quote ≠ '\n' ∧ quote ≠ '\r') :
    ∀ d ∈ body.head?, d ≠ '\r' ∧ (d = '\n' → '\n' ∈ s) := by
  cases h with
  | done => exact fun d hd => (nomatch hd)
  | quote _ _ =>
    rintro d ⟨⟩
    exact ⟨hquote.2, fun h => absurd h hquote.1⟩
  | lineEnd _ =>
    rintro d ⟨⟩
    exact ⟨by decide, fun _ => List.mem_cons_self⟩
  | plain _ hcontrol _ _ =>
    rintro d ⟨⟩
    exact ⟨(ne_of_isControl_eq_false hcontrol).2,
      fun h => absurd h (ne_of_isControl_eq_false hcontrol).1⟩
  | escape _ _ _ =>
    rintro d ⟨⟩
    exact ⟨by decide, fun h => absurd h (by decide)⟩

theorem long?_append (h : Spells quote 0 body s)
    (hquote : quote ≠ '\n' ∧ quote ≠ '\r' ∧ quote ≠ '\\') (hrest : ∀ d ∈ rest.head?, d ≠ quote) :
    long? quote ((if s.contains '\n' then ['\n'] else []) ++
      (body ++ (List.replicate 3 quote ++ rest))) = some (s, rest) := by
  rw [long?]
  by_cases hlines : s.contains '\n' = true
  · rw [if_pos hlines]
    refine (h.longFrom?_eq (Nat.zero_le 2) hquote hrest ?_ []).trans (by simp)
    simp only [List.length_append, List.length_singleton, List.length_replicate]
    omega
  · rw [if_neg hlines, List.nil_append]
    have hline : afterLineEnd? (body ++ (List.replicate 3 quote ++ rest)) = none := by
      apply afterLineEnd?_eq_none
      intro d hd
      cases body with
      | nil =>
        obtain rfl : quote = d := by simpa using hd
        exact ⟨hquote.1, hquote.2.1⟩
      | cons b body =>
        obtain ⟨hreturn, hfeed⟩ := h.head ⟨hquote.1, hquote.2.1⟩ d hd
        exact ⟨fun heq => hlines (by simpa using hfeed heq), hreturn⟩
    rw [hline, Option.getD_none]
    refine (h.longFrom?_eq (Nat.zero_le 2) hquote hrest ?_ []).trans (by simp)
    simp only [List.length_append, List.length_replicate]
    omega

theorem quoted?_long (h : Spells quote 0 body s) (hquote : quote = '"' ∨ quote = '\'')
    (hrest : ∀ d ∈ rest.head?, d ≠ quote) :
    quoted? (long quote s body ++ rest) = some (s, rest) := by
  have hparts : long quote s body ++ rest = quote :: quote :: quote ::
      ((if s.contains '\n' then ['\n'] else []) ++ (body ++ (List.replicate 3 quote ++ rest))) := by
    simp [long, List.replicate]
  rw [hparts]
  rcases hquote with rfl | rfl
  · exact long?_append h (by decide) hrest
  · exact long?_append h (by decide) hrest

/-! The form in which a text is written. -/

theorem spells_escapedFrom {run : Nat} (hrun : run ≤ 2) (s : List Char) :
    Spells '"' run (escapedFrom true 2 run s) s := by
  induction s generalizing run with
  | nil => exact .done
  | cons c s ih =>
    rw [escapedFrom]
    by_cases hquote : c = '"'
    · subst hquote
      rw [if_pos rfl]
      split
      · exact .escape (e := ['"']) rfl (fun r => rfl) (ih (Nat.zero_le 2))
      · exact .quote (by omega) (ih (by omega))
    · rw [if_neg hquote]
      by_cases hline : c = '\n'
      · subst hline
        exact .lineEnd (ih (Nat.zero_le 2))
      · rw [if_neg (fun h => hline h.1)]
        rcases escapeOf_cases c with ⟨hself, hcontrol, hslash⟩ | ⟨e, he, -, hread⟩
        · rw [hself]
          exact .plain hquote hcontrol (fun h => absurd h hslash) (ih (Nat.zero_le 2))
        · rw [he]
          exact .escape rfl hread (ih (Nat.zero_le 2))

/-- One step in the search for the longest run of a character. -/
def countRun (c : Char) (acc : Nat × Nat) (d : Char) : Nat × Nat :=
  if d = c then (acc.1 + 1, max acc.2 (acc.1 + 1)) else (0, acc.2)

theorem longestRun_eq (c : Char) (s : List Char) :
    longestRun c s = (s.foldl (countRun c) (0, 0)).2 := rfl

theorem le_foldl_countRun (c : Char) (s : List Char) (acc : Nat × Nat) :
    acc.2 ≤ (s.foldl (countRun c) acc).2 := by
  induction s generalizing acc with
  | nil => exact Nat.le_refl _
  | cons d s ih =>
    refine Nat.le_trans ?_ (ih (countRun c acc d))
    rw [countRun]
    split
    · exact Nat.le_max_left _ _
    · exact Nat.le_refl _

theorem spells_literal (hcontrol : ∀ d ∈ s, isControl d = true → d = '\n') (j most : Nat)
    (hruns : (s.foldl (countRun '\'') (j, most)).2 ≤ 2) : Spells '\'' j s s := by
  induction s generalizing j most with
  | nil => exact .done
  | cons c s ih =>
    have hrest := ih fun d hd => hcontrol d (List.mem_cons_of_mem c hd)
    rw [List.foldl_cons, countRun] at hruns
    by_cases hquote : c = '\''
    · subst hquote
      rw [if_pos rfl] at hruns
      have hnow := Nat.le_trans (le_foldl_countRun '\'' s _) hruns
      exact .quote (by simp only at hnow; omega) (hrest _ _ hruns)
    · rw [if_neg hquote] at hruns
      by_cases hline : c = '\n'
      · subst hline
        exact .lineEnd (hrest _ _ hruns)
      · have hc : isControl c = false := by
          by_contra h
          exact hline (hcontrol c List.mem_cons_self (by simpa using h))
        exact .plain hquote hc (fun _ => by decide) (hrest _ _ hruns)

theorem not_mem_of_longestRun {c : Char} (h : longestRun c s = 0) : c ∉ s := by
  intro hmem
  obtain ⟨before, after, rfl⟩ := List.append_of_mem hmem
  rw [longestRun_eq, List.foldl_append, List.foldl_cons, countRun, if_pos rfl] at h
  have hle := le_foldl_countRun c after ((before.foldl (countRun c) (0, 0)).1 + 1,
    max (before.foldl (countRun c) (0, 0)).2 ((before.foldl (countRun c) (0, 0)).1 + 1))
  rw [h] at hle
  simp at hle

theorem quotedText_cases (s : List Char) : quotedText s = basic s ∨
    (quotedText s = literal s ∧ '\'' ∉ s ∧ ∀ d ∈ s, isControl d = false) ∨
    ∃ quote body, (quote = '"' ∨ quote = '\'') ∧ quotedText s = long quote s body ∧
    Spells quote 0 body s ∧ '\r' ∉ body := by
  have hcodes : (!s.any fun c => isControl c && c != '\n') = true → ∀ d ∈ s, isControl d = true →
      d = '\n' := by
    intro h d hd hcontrol
    rw [List.not_any_eq_all_not, List.all_eq_true] at h
    simpa [hcontrol] using h d hd
  have hescaped : ∃ quote body, (quote = '"' ∨ quote = '\'') ∧
      long '"' s (escapedFrom true 2 0 s) = long quote s body ∧
      Spells quote 0 body s ∧ '\r' ∉ body :=
    ⟨'"', _, Or.inl rfl, rfl, spells_escapedFrom (Nat.zero_le 2) s, not_mem_escapedFrom true 2 0 s⟩
  unfold quotedText
  dsimp only
  split
  · exact Or.inl rfl
  · split
    · rename_i h
      simp only [Bool.and_eq_true, decide_eq_true_eq] at h
      obtain ⟨⟨hplain, hsingles⟩, hlines⟩ := h
      refine Or.inr (Or.inl ⟨rfl, not_mem_of_longestRun hsingles, fun d hd => ?_⟩)
      by_contra hcontrol
      have hline := hcodes hplain d hd (by simpa using hcontrol)
      subst hline
      simp [hd] at hlines
    · split
      · exact Or.inr (Or.inr hescaped)
      · split
        · rename_i h
          simp only [Bool.and_eq_true, decide_eq_true_eq] at h
          refine Or.inr (Or.inr ⟨'\'', s, Or.inr rfl, rfl,
            spells_literal (hcodes h.1) 0 0 h.2, fun hmem => ?_⟩)
          exact absurd (hcodes h.1 '\r' hmem (by decide)) (by decide)
        · split
          · exact Or.inr (Or.inr hescaped)
          · exact Or.inl rfl

theorem quoted?_quotedText (s : List Char) (hrest : ∀ d ∈ rest.head?, d ≠ '"' ∧ d ≠ '\'') :
    quoted? (quotedText s ++ rest) = some (s, rest) := by
  rcases quotedText_cases s
    with heq | ⟨heq, hquote, hcontrol⟩ | ⟨quote, body, hquote, heq, hspells, -⟩
  · rw [heq]
    exact quoted?_basic s rest fun d hd => (hrest d hd).1
  · rw [heq]
    exact quoted?_literal hquote hcontrol fun d hd => (hrest d hd).2
  · rw [heq]
    refine quoted?_long hspells hquote fun d hd => ?_
    rcases hquote with rfl | rfl
    · exact (hrest d hd).1
    · exact (hrest d hd).2

theorem head?_quotedText (s : List Char) :
    (quotedText s).head? = some '"' ∨ (quotedText s).head? = some '\'' := by
  rcases quotedText_cases s with heq | ⟨heq, -⟩ | ⟨quote, body, hquote, heq, -⟩
  · exact Or.inl (by rw [heq]; rfl)
  · exact Or.inr (by rw [heq]; rfl)
  · rw [heq, long]
    rcases hquote with rfl | rfl
    · exact Or.inl rfl
    · exact Or.inr rfl

theorem not_mem_quotedText (s : List Char) : '\r' ∉ quotedText s := by
  rcases quotedText_cases s with heq | ⟨heq, -, hcontrol⟩ | ⟨quote, body, hquote, heq, -, hbody⟩
  · rw [heq, basic]
    simpa using not_mem_escapedFrom false 0 0 s
  · have hmem : '\r' ∉ s := fun h => absurd (hcontrol '\r' h) (by decide)
    rw [heq, literal]
    simpa using hmem
  · have hne : '\r' ≠ quote := by
      rcases hquote with rfl | rfl
      · decide
      · decide
    rw [heq, long]
    split <;> simp [hbody, hne]

end NoiseTimeline.Toml
