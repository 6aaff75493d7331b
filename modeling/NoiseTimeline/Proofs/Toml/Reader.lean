import NoiseTimeline.Proofs.Text.Lines
import NoiseTimeline.Proofs.Toml.Quoted
import NoiseTimeline.Settings.File
import NoiseTimeline.Settings.Language

/-! Keys and values of TOML read back, with what stands between them. What follows a
key or a value is left as it is. -/

namespace NoiseTimeline

namespace Toml

variable {c : Char} {s rest : List Char} {fuel n : Nat}

/-! Numbers and truth values. -/

theorem digits?_eq (hne : s ≠ []) (hdigits : ∀ d ∈ s, isDigit d = true) :
    digits? isDigit s = some s := by
  induction s with
  | nil => exact absurd rfl hne
  | cons c s ih =>
    have hc : isDigit c = true := hdigits c List.mem_cons_self
    cases s with
    | nil => rw [digits?, if_pos hc]
    | cons d s =>
      have hd : d ≠ '_' := by
        rintro rfl
        exact absurd (hdigits '_' (List.mem_cons_of_mem c List.mem_cons_self)) (by decide)
      have hnext := ih (by simp) fun e he => hdigits e (List.mem_cons_of_mem c he)
      rw [digits?, if_pos hc, hnext]
      · rfl
      · exact nofun
      · rintro r heq
        exact hd (List.cons.inj heq).1

theorem decimal?_digitTexts (n : Nat) :
    decimal? (Decimal.digitTexts n) = some (Decimal.digitTexts n) := by
  have hdigits :=
    digits?_eq (Decimal.digitTexts_ne_nil n) fun d => Decimal.isDigit_of_mem_digitTexts
  rw [decimal?, hdigits]
  refine if_neg ?_
  rintro ⟨hlong, hzero⟩
  cases n with
  | zero => exact absurd hlong (by decide)
  | succ n => exact Decimal.head?_digitTexts (Nat.succ_pos n) hzero

theorem integer?_digitTexts (n : Nat) : integer? (Decimal.digitTexts n) = some (n : Int) := by
  have hdigits : ∀ d ∈ Decimal.digitTexts n, isDigit d = true :=
    fun d => Decimal.isDigit_of_mem_digitTexts
  have hdecimal := decimal?_digitTexts n
  have hvalue : digitsValue (Decimal.digitTexts n) = n := Decimal.digitsFrom_digitTexts n
  generalize Decimal.digitTexts n = s at *
  have hsign : signed s = (false, s) := by
    unfold signed
    split
    · exact absurd (hdigits '-' List.mem_cons_self) (by decide)
    · exact absurd (hdigits '+' List.mem_cons_self) (by decide)
    · rfl
  unfold integer?
  split
  · exact absurd (hdigits 'x' (by simp)) (by decide)
  · exact absurd (hdigits 'o' (by simp)) (by decide)
  · exact absurd (hdigits 'b' (by simp)) (by decide)
  · rw [hsign]
    dsimp only
    rw [hdecimal, Option.map_some, hvalue]
    rfl

theorem scalar?_digitTexts (low high : Int) (hrange : low ≤ n ∧ (n : Int) ≤ high) :
    scalar? low high (Decimal.digitTexts n) = some (.integer n) := by
  have hdigits : ∀ d ∈ Decimal.digitTexts n, isDigit d = true :=
    fun d => Decimal.isDigit_of_mem_digitTexts
  have hword : ∀ (c : Char) (word : List Char), isDigit c = false →
      Decimal.digitTexts n ≠ c :: word := by
    intro c word hc heq
    have hmem := hdigits c (heq ▸ List.mem_cons_self)
    rw [hc] at hmem
    cases hmem
  have htrue : Decimal.digitTexts n ≠ "true".toList := hword 't' _ (by decide)
  have hfalse : Decimal.digitTexts n ≠ "false".toList := hword 'f' _ (by decide)
  rw [scalar?, if_neg htrue, if_neg hfalse, integer?_digitTexts]
  exact if_pos hrange

theorem plain?_line (range : IntegerRange) (hs : ∀ d ∈ s, endsScalar d = false) (r : List Char) :
    plain? range (s ++ '\n' :: r) = (scalar? range.low range.high s).map fun v =>
      (v, '\n' :: r) := by
  have hfirst : (s ++ '\n' :: r).takeWhile (fun d => !endsScalar d) = s := by
    have hend : endsScalar '\n' = true := by decide
    rw [List.takeWhile_append_of_pos (by simpa using hs),
      List.takeWhile_cons_of_neg (by simp [hend]), List.append_nil]
  unfold plain?
  dsimp only
  rw [hfirst, List.drop_left]
  rfl

end Toml

/-- A setting as a value of TOML. -/
def SettingValue.toTree : SettingValue → Toml.Tree
  | .text s => .text s
  | .count n => .integer n
  | .flag b => .bool b

/-- The counter of the setting holds its number. -/
def SettingValue.Fits : SettingValue → Prop
  | .count n => n < wordLimit
  | .text _ | .flag _ => True

namespace Toml

variable {v : SettingValue} {name : List Char}

theorem endsScalar_of_isDigit {d : Char} (h : isDigit d = true) : endsScalar d = false := by
  rw [Bool.eq_false_iff]
  intro hends
  have hmem : d ∈ " \t\n\r,]#".toList ∨ d = '\x7d' := by
    simpa [endsScalar] using hends
  have hall : ∀ e ∈ " \t\n\r,]#".toList, isDigit e = false := by decide
  rcases hmem with hmem | rfl
  · rw [hall d hmem] at h
    cases h
  · exact absurd h (by decide)

theorem value?_of_isDigit (range : IntegerRange) (hc : isDigit c = true) (fuel depth : Nat)
    (r : List Char) :
    value? range (fuel + 1) depth (c :: r) = plain? range (c :: r) := by
  have hne : ∀ d, isDigit d = false → ∀ tail, c :: r ≠ d :: tail := by
    rintro d hd tail heq
    rw [← (List.cons.inj heq).1, hc] at hd
    cases hd
  rw [value?]
  · exact hne '"' (by decide)
  · exact hne '\'' (by decide)
  · exact hne '[' (by decide)
  · exact hne '\x7b' (by decide)

theorem value?_toToml (hfits : v.Fits) (fuel depth : Nat) (r : List Char) :
    value? Document.readRange (fuel + 1) depth (v.toToml.toList ++ '\n' :: r) =
      some (v.toTree, '\n' :: r) := by
  cases v with
  | text s =>
    have hread : quoted? (quotedText s.toList ++ '\n' :: r) = some (s.toList, '\n' :: r) :=
      quoted?_quotedText s.toList (by rintro d ⟨⟩; decide)
    have hhead := head?_quotedText s.toList
    rw [SettingValue.toToml, String.toList_ofList]
    generalize quotedText s.toList = written at hread hhead ⊢
    cases written with
    | nil => exact hhead.elim nofun nofun
    | cons c written =>
      rw [List.head?_cons, Option.some.injEq, Option.some.injEq] at hhead
      rw [List.cons_append] at hread ⊢
      rcases hhead with rfl | rfl
      · simp [value?, hread, SettingValue.toTree]
      · simp [value?, hread, SettingValue.toTree]
  | count n =>
    have hdigits : ∀ d ∈ Decimal.digitTexts n, isDigit d = true :=
      fun d => Decimal.isDigit_of_mem_digitTexts
    have hrange : Document.readRange.low ≤ (n : Int) ∧ (n : Int) ≤ Document.readRange.high := by
      have hless : n < 18446744073709551616 := hfits
      simp only [Document.readRange]
      omega
    have hplain :=
      plain?_line Document.readRange (fun d hd => endsScalar_of_isDigit (hdigits d hd)) r
    rw [scalar?_digitTexts _ _ hrange] at hplain
    rw [SettingValue.toToml, Decimal.toList_toString, SettingValue.toTree]
    cases hwritten : Decimal.digitTexts n with
    | nil => exact absurd hwritten (Decimal.digitTexts_ne_nil n)
    | cons c written =>
      rw [hwritten] at hdigits hplain
      exact (value?_of_isDigit _ (hdigits c List.mem_cons_self) fuel depth _).trans hplain
  | flag b =>
    cases b with
    | true => exact plain?_line Document.readRange (s := "true".toList) (by decide) r
    | false => exact plain?_line Document.readRange (s := "false".toList) (by decide) r

/-! Keys. -/

/-- A key that needs no quotes. -/
def IsBareKey (name : List Char) : Prop := name ≠ [] ∧ ∀ d ∈ name, isBare d = true

instance : DecidablePred IsBareKey :=
  fun name => inferInstanceAs (Decidable (name ≠ [] ∧ ∀ d ∈ name, isBare d = true))

theorem ne_of_isBare {d : Char} (h : isBare d = true) :
    isSpace d = false ∧ d ≠ '"' ∧ d ≠ '\'' ∧ d ≠ '#' ∧ d ≠ '[' ∧ d ≠ '\n' ∧ d ≠ '\r' := by
  have hne : ∀ e, isBare e = false → d ≠ e := by
    rintro e he rfl
    rw [h] at he
    cases he
  have hspace := hne ' ' (by decide)
  have htab := hne '\t' (by decide)
  exact ⟨by simp [isSpace, hspace, htab], hne _ (by decide), hne _ (by decide), hne _ (by decide),
    hne _ (by decide), hne _ (by decide), hne _ (by decide)⟩

theorem key?_bare (hname : IsBareKey name) (blanks : List Char)
    (hblanks : ∀ d ∈ blanks, isSpace d = true) (hc : isSpace c = false ∧ isBare c = false ∧ c ≠ '.')
    (fuel : Nat) (r : List Char) :
    ∃ part, key? (fuel + 1) (name ++ (blanks ++ c :: r)) = some ([part], c :: r) ∧
      part.name = String.ofList name := by
  obtain ⟨hne, hbare⟩ := hname
  have hstop : ∀ d ∈ (blanks ++ c :: r).head?, isBare d = false := by
    intro d hd
    cases blanks with
    | nil =>
      obtain rfl : c = d := by simpa using hd
      exact hc.2.1
    | cons b blanks =>
      obtain rfl : b = d := by simpa using hd
      have hb := hblanks b List.mem_cons_self
      by_contra hbare
      rw [(ne_of_isBare (by simpa using hbare)).1] at hb
      cases hb
  have htake : (name ++ (blanks ++ c :: r)).takeWhile isBare = name := by
    rw [List.takeWhile_append_of_pos hbare]
    cases hrest : blanks ++ c :: r with
    | nil => simp
    | cons d l =>
      rw [List.takeWhile_cons_of_neg (by simp [hstop d (by rw [hrest]; rfl)]), List.append_nil]
  have hdrop : (name ++ (blanks ++ c :: r)).dropWhile isBare = blanks ++ c :: r := by
    rw [List.dropWhile_append_of_pos hbare]
    cases hrest : blanks ++ c :: r with
    | nil => rfl
    | cons d l => rw [List.dropWhile_cons_of_neg (by simp [hstop d (by rw [hrest]; rfl)])]
  have hspaces : (blanks ++ c :: r).takeWhile isSpace = blanks := by
    rw [List.takeWhile_append_of_pos hblanks, List.takeWhile_cons_of_neg (by simp [hc.1]),
      List.append_nil]
  cases name with
  | nil => exact absurd rfl hne
  | cons d name =>
    obtain ⟨hd, hdouble, hsingle, -⟩ := ne_of_isBare (hbare d List.mem_cons_self)
    have hpart : ∃ part, keyPart? (d :: name ++ (blanks ++ c :: r)) = some (part, c :: r) ∧
        part.name = String.ofList (d :: name) := by
      have hbefore : (d :: name ++ (blanks ++ c :: r)).takeWhile isSpace = [] := by
        rw [List.cons_append, List.takeWhile_cons_of_neg (by simp [hd])]
      have hempty : (d :: name).isEmpty = false := rfl
      unfold keyPart?
      simp only [hbefore, List.length_nil, List.drop_zero]
      rw [htake, hdrop, hempty]
      simp [hdouble, hsingle, hspaces]
    obtain ⟨part, hread, hpartName⟩ := hpart
    refine ⟨part, ?_, hpartName⟩
    rw [key?, hread]
    simp only [bind, Option.bind]
    split
    · rename_i heq
      exact absurd (List.cons.inj heq).1 hc.2.2
    · rfl

/-! Comments and blank lines. -/

/-- Lines without keys and headers. -/
inductive Gap : List Char → Prop
  | nil : Gap []
  | lineEnd {s : List Char} (h : Gap s) : Gap ('\n' :: s)
  | comment {text s : List Char} (htext : ∀ d ∈ text, isControl d = false) (h : Gap s) :
      Gap ('#' :: (text ++ '\n' :: s))

theorem Gap.append (h : Gap s) {t : List Char} (ht : Gap t) : Gap (s ++ t) := by
  induction h with
  | nil => exact ht
  | lineEnd h ih => exact .lineEnd ih
  | comment htext h ih =>
    rw [List.cons_append, List.append_assoc, List.cons_append]
    exact .comment htext ih

theorem afterComment?_line (hs : ∀ d ∈ s, isControl d = false) (r : List Char) :
    afterComment? (s ++ '\n' :: r) = some ('\n' :: r) := by
  have hdrop : (s ++ '\n' :: r).dropWhile (fun d => !isControl d) = '\n' :: r := by
    have hend : isControl '\n' = true := by decide
    rw [List.dropWhile_append_of_pos (by simpa using hs),
      List.dropWhile_cons_of_neg (by simp [hend])]
  rw [afterComment?, hdrop]
  rfl

theorem afterGap?_stop (hrest : ∀ d ∈ rest.head?, isSpace d = false ∧ d ≠ '#' ∧ d ≠ '\n' ∧ d ≠ '\r')
    (fuel : Nat) :
    afterGap? fuel rest = some rest := by
  cases fuel with
  | zero => rfl
  | succ fuel =>
    have hline : afterLineEnd? rest = none := afterLineEnd?_eq_none fun d hd => (hrest d hd).2.2
    rw [afterGap?.eq_def]
    dsimp only
    rw [hline]
    cases rest with
    | nil => rfl
    | cons d r =>
      obtain ⟨hspace, hcomment, -⟩ := hrest d rfl
      simp [hspace]

theorem Gap.afterGap?_eq (h : Gap s)
    (hrest : ∀ d ∈ rest.head?, isSpace d = false ∧ d ≠ '#' ∧ d ≠ '\n' ∧ d ≠ '\r')
    (hfuel : s.length < fuel) : afterGap? fuel (s ++ rest) = some rest := by
  induction h generalizing fuel with
  | nil => exact afterGap?_stop hrest fuel
  | lineEnd h ih =>
    obtain ⟨fuel, rfl⟩ := Nat.exists_eq_succ_of_ne_zero (Nat.ne_zero_of_lt hfuel)
    exact ih (Nat.lt_of_succ_lt_succ hfuel)
  | @comment text s htext h ih =>
    simp only [List.length_cons, List.length_append] at hfuel
    obtain ⟨fuel, rfl⟩ : ∃ k, fuel = k + 2 := ⟨fuel - 2, by omega⟩
    have hstep : afterGap? (fuel + 2) ('#' :: (text ++ '\n' :: (s ++ rest))) =
        (afterComment? (text ++ '\n' :: (s ++ rest))).bind (afterGap? (fuel + 1)) := rfl
    rw [List.cons_append, List.append_assoc, List.cons_append, hstep, afterComment?_line htext]
    exact ih (by omega)

theorem Gap.gap?_eq (h : Gap s)
    (hrest : ∀ d ∈ rest.head?, isSpace d = false ∧ d ≠ '#' ∧ d ≠ '\n' ∧ d ≠ '\r') :
    gap? (s ++ rest) = some rest :=
  h.afterGap?_eq hrest (by simp only [List.length_append]; omega)

end Toml

end NoiseTimeline
