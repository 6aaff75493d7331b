import Mathlib.Data.List.Infix
import NoiseTimeline.Proofs.Store.Replacement

/-! The path of a name in a directory. It has one part more than the directory's, so
it leads to the entry of that name. -/

namespace NoiseTimeline

namespace Path

/-- An entry of a directory can have this name. -/
structure IsName (name : String) : Prop where
  nonempty : name ≠ ""
  notHere : name ≠ "."
  notAbove : name ≠ ".."
  slash : '/' ∉ name.toList
  nul : '\x00' ∉ name.toList

variable {dir name ending : String}

theorem isName_iff :
    IsName name ↔ name ≠ "" ∧ name ≠ "." ∧ name ≠ ".." ∧ '/' ∉ name.toList ∧ '\x00' ∉ name.toList :=
  ⟨fun h => ⟨h.nonempty, h.notHere, h.notAbove, h.slash, h.nul⟩,
    fun ⟨hnonempty, hhere, habove, hslash, hnul⟩ => ⟨hnonempty, hhere, habove, hslash, hnul⟩⟩

instance (name : String) : Decidable (IsName name) := decidable_of_iff _ isName_iff.symm

theorem splitSlash_ne_nil (s : List Char) : splitSlash s ≠ [] := by
  cases s with
  | nil => simp [splitSlash]
  | cons c s =>
    rw [splitSlash]
    split
    · simp
    · split <;> simp

theorem splitSlash_of_no_slash {s : List Char} (h : '/' ∉ s) : splitSlash s = [s] := by
  induction s with
  | nil => rfl
  | cons c s ih =>
    have hc : c ≠ '/' := fun hc => h (hc ▸ List.mem_cons_self)
    rw [splitSlash, if_neg hc, ih fun hs => h (List.mem_cons_of_mem _ hs)]

theorem splitSlash_append (a b : List Char) :
    splitSlash (a ++ '/' :: b) = splitSlash a ++ splitSlash b := by
  induction a with
  | nil => rfl
  | cons c a ih =>
    rw [List.cons_append, splitSlash, splitSlash, ih]
    split
    · rfl
    · cases ha : splitSlash a with
      | nil => exact absurd ha (splitSlash_ne_nil a)
      | cons p ps => rfl

theorem IsName.toList_ne_nil (h : IsName name) : name.toList ≠ [] := by
  intro hnil
  exact h.nonempty (String.toList_eq_nil_iff.mp hnil)

theorem IsName.not_isAbsolute (h : IsName name) : isAbsolute name = false := by
  obtain ⟨c, s, hs⟩ := List.exists_cons_of_ne_nil h.toList_ne_nil
  have hc : c ≠ '/' := fun hc => h.slash (by rw [hs, hc]; exact List.mem_cons_self)
  rw [isAbsolute, hs]
  simpa using hc

theorem join_empty (h : IsName name) : join "" name = name := by
  rw [join, h.not_isAbsolute]
  rfl

theorem splitSlash_join (dir : String) (h : IsName name) :
    ∃ front, splitSlash (join dir name).toList = front ++ [name.toList] ∧
      (splitSlash dir.toList = front ∨ splitSlash dir.toList = front ++ [[]]) := by
  have hname : splitSlash name.toList = [name.toList] := splitSlash_of_no_slash h.slash
  by_cases hdir : dir = ""
  · subst hdir
    rw [join_empty h]
    exact ⟨[], hname, Or.inr rfl⟩
  have hempty : dir.isEmpty = false := by simpa using hdir
  rw [join, h.not_isAbsolute, hempty]
  simp only [Bool.or_self, Bool.false_eq_true, if_false]
  split
  · rename_i hslash
    obtain ⟨front, hfront⟩ := List.getLast?_eq_some_iff.mp hslash
    refine ⟨splitSlash front, ?_, Or.inr ?_⟩
    · rw [String.toList_append, hfront, List.append_assoc, List.singleton_append,
        splitSlash_append, hname]
    · rw [hfront, splitSlash_append]
      rfl
  · refine ⟨splitSlash dir.toList, ?_, Or.inl rfl⟩
    have hbar : "/".toList = ['/'] := by decide
    rw [String.toList_append, String.toList_append, hbar, List.append_assoc, List.singleton_append,
      splitSlash_append, hname]

theorem parts_join (dir : String) (h : IsName name) :
    parts (join dir name) = parts dir ++ [name] := by
  obtain ⟨front, hjoin, hfront⟩ := splitSlash_join dir h
  have hkeep : ([name.toList].filter fun p => p ≠ [] ∧ p ≠ ['.']) = [name.toList] := by
    have hdot : name.toList ≠ ['.'] := fun hdot => h.notHere (String.toList_inj.mp hdot)
    simp [h.toList_ne_nil, hdot]
  have hdirparts : parts dir = (front.filter fun p => p ≠ [] ∧ p ≠ ['.']).map String.ofList := by
    rw [parts]
    rcases hfront with hfront | hfront
    · rw [hfront]
    · rw [hfront, List.filter_append]
      simp
  rw [hdirparts, parts, hjoin, List.filter_append, hkeep, List.map_append, List.map_singleton,
    String.ofList_toList]

theorem join_inj {name' : String} (h : IsName name) (h' : IsName name')
    (heq : join dir name = join dir name') :
    name = name' := by
  have hparts := congrArg parts heq
  rw [parts_join dir h, parts_join dir h'] at hparts
  exact List.singleton_inj.mp (List.append_cancel_left hparts)

theorem wantsDirectory_join (h : IsName name) : wantsDirectory (join dir name) = false := by
  obtain ⟨front, hjoin, -⟩ := splitSlash_join dir h
  have hdot : name.toList ≠ ['.'] := fun hdot => h.notHere (String.toList_inj.mp hdot)
  rw [wantsDirectory, hjoin, List.getLast?_concat]
  simp [h.toList_ne_nil, hdot]

theorem isAbsolute_join (h : IsName name) : isAbsolute (join dir name) = isAbsolute dir := by
  by_cases hdir : dir = ""
  · subst hdir
    rw [join_empty h, h.not_isAbsolute]
    rfl
  have hempty : dir.isEmpty = false := by simpa using hdir
  have hchars : dir.toList ≠ [] := fun hnil => hdir (String.toList_eq_nil_iff.mp hnil)
  obtain ⟨c, s, hs⟩ := List.exists_cons_of_ne_nil hchars
  rw [join, h.not_isAbsolute, hempty]
  simp only [Bool.or_self, Bool.false_eq_true, if_false]
  split <;> simp [isAbsolute, hs]

theorem mem_join {c : Char} (h : IsName name) (hc : c ∈ (join dir name).toList) :
    c ∈ dir.toList ∨ c = '/' ∨ c ∈ name.toList := by
  rw [join, h.not_isAbsolute] at hc
  simp only [Bool.false_or] at hc
  split at hc
  · exact Or.inr (Or.inr hc)
  · split at hc
    · rw [String.toList_append, List.mem_append] at hc
      exact hc.imp_right Or.inr
    · simpa [or_assoc] using hc

theorem join_append (h : IsName name) (h' : IsName (name ++ ending)) :
    join dir name ++ ending = join dir (name ++ ending) := by
  rw [join, join, h.not_isAbsolute, h'.not_isAbsolute]
  simp only [Bool.false_or]
  split
  · rfl
  · split
    · rw [String.append_assoc]
    · rw [String.append_assoc]

end Path

namespace FileTree

variable {t : FileTree} {cwd l : Location} {dir name : String}

theorem locate_eq_ok {path : String} (h : t.locate cwd path = .ok l) :
    path ≠ "" ∧ '\x00' ∉ path.toList ∧
      t.walk (if Path.isAbsolute path then [] else cwd) (Path.parts path) = .ok l := by
  unfold locate at h
  split at h
  · cases h
  · rename_i hempty
    split at h
    · cases h
    · rename_i hnul
      exact ⟨by simpa using hempty, by simpa using hnul, h⟩

theorem locate_join (hdir : t.locate cwd dir = .ok l) (hnode : t.node? l = some .directory)
    (h : Path.IsName name) :
    t.locate cwd (Path.join dir name) =
      if nameLimit < name.utf8ByteSize then .error (.system SystemError.nameTooLong)
      else .ok (l ++ [name]) := by
  obtain ⟨-, hnul, hwalk⟩ := locate_eq_ok hdir
  have hparts := Path.parts_join dir h
  have hjoin : Path.join dir name ≠ "" := by
    intro hempty
    rw [hempty] at hparts
    exact absurd hparts.symm (by simp [Path.parts, Path.splitSlash])
  have hplain : '\x00' ∉ (Path.join dir name).toList := by
    intro hmem
    rcases Path.mem_join h hmem with hmem | hmem | hmem
    · exact hnul hmem
    · exact absurd hmem (by decide)
    · exact h.nul hmem
  rw [locate, if_neg (by simpa using hjoin), if_neg (by simpa using hplain), hparts,
    Path.isAbsolute_join h, walk_append_name hwalk hnode, walk]
  exact h.notAbove

theorem getLast?_of_walk {here : Location} {names : List String} (hname : name ≠ "..")
    (h : t.walk here (names ++ [name]) = .ok l) : l.getLast? = some name := by
  induction names generalizing here with
  | nil =>
    rw [List.nil_append, walk] at h
    · split at h
      · cases h
      · cases h
        exact List.getLast?_concat
    · exact hname
  | cons first rest ih =>
    by_cases hup : first = ".."
    · subst hup
      exact ih h
    · rw [List.cons_append, walk.eq_4 t here first (rest ++ [name]) hup (by simp)] at h
      split at h
      · cases h
      · split at h
        · exact ih h
        · cases h
        · cases h

theorem getLast?_of_locate_join (h : Path.IsName name)
    (hl : t.locate cwd (Path.join dir name) = .ok l) :
    l.getLast? = some name := by
  obtain ⟨-, -, hwalk⟩ := locate_eq_ok hl
  rw [Path.parts_join dir h] at hwalk
  exact getLast?_of_walk h.notAbove hwalk

theorem locate_of_find {n : FileNode} {path : String} (h : t.find cwd path = .ok n) :
    ∃ l, t.locate cwd path = .ok l ∧ t.node? l = some n := by
  obtain ⟨l, hl, hnode, -⟩ := find_eq_ok h
  exact ⟨l, hl, hnode⟩

/-- Entries stand at one place each, under names that entries can have. -/
structure WellFormed (t : FileTree) : Prop where
  distinct : t.Distinct
  proper : ∀ e ∈ t.entries, ∀ name ∈ e.1, Path.IsName name

theorem WellFormed.isName (h : t.WellFormed) (hname : (t.node? (l ++ [name])).isSome = true) :
    Path.IsName name := by
  rw [node?, if_neg (by simp)] at hname
  have hkey : ¬ ∀ e ∈ t.entries, e.1 ≠ l ++ [name] := by
    rw [← lookup_eq_none_iff]
    intro hnone
    rw [hnone] at hname
    cases hname
  push Not at hkey
  obtain ⟨e, he, hkey⟩ := hkey
  exact h.proper e he name (by simp [hkey])

theorem readText_of_locate_error {path : String} {e : IoError} (h : t.locate cwd path = .error e) :
    t.readText cwd path = .error e := by
  simp [readText, read, find, h, bind, Except.bind]

theorem read_congr {t' : FileTree} {path : String} (hdirs : SameDirectories t t')
    (hl : t.locate cwd path = .ok l) (hnode : t'.node? l = t.node? l) :
    t'.read cwd path = t.read cwd path := by
  have hfind : t'.find cwd path = t.find cwd path := by
    rw [find, find, hl, hdirs.locate_eq hl]
    simp only [bind, Except.bind, hnode]
  rw [read, read, hfind]

theorem readText_congr {t' : FileTree} {path : String} (hdirs : SameDirectories t t')
    (hl : t.locate cwd path = .ok l) (hnode : t'.node? l = t.node? l) :
    t'.readText cwd path = t.readText cwd path := by
  rw [readText, readText, read_congr hdirs hl hnode]

end FileTree

end NoiseTimeline
