import Mathlib.Data.List.TakeWhile
import NoiseTimeline.Proofs.Store.Footprint

/-! The path with another extension. Its last name is another one, so a file with an extension of
two parts is never the file whose path was extended. -/

namespace NoiseTimeline.Path

variable {path name extension : String} {cwd : Location} {s dir x : List Char}

/-- A text that a name can follow. -/
def EndsDirectory (dir : List Char) : Prop := dir = [] ∨ ∃ d, dir = d ++ ['/']

theorem exists_split (s : List Char) : ∃ dir x, s = dir ++ x ∧ EndsDirectory dir ∧ '/' ∉ x := by
  by_cases hslash : '/' ∈ s
  · obtain ⟨x, d, hs, hx⟩ := List.eq_append_cons_of_mem (List.mem_reverse.mpr hslash)
    refine ⟨d.reverse ++ ['/'], x.reverse, ?_, .inr ⟨_, rfl⟩, mt List.mem_reverse.mp hx⟩
    rw [← List.reverse_cons, ← List.reverse_append, ← hs, List.reverse_reverse]
  · exact ⟨[], s, rfl, .inl rfl, hslash⟩

theorem bne_of_not_mem {d : Char} (h : d ∉ s) : ∀ c ∈ s, (c != d) = true := by
  intro c hc
  rw [bne_iff_ne]
  rintro rfl
  exact h hc

theorem splitLast_append (hdir : EndsDirectory dir) (hx : '/' ∉ x) :
    splitLast (dir ++ x) = (dir, x) := by
  have hends : dir.reverse.takeWhile (· != '/') = [] := by
    obtain rfl | ⟨d, rfl⟩ := hdir
    · rfl
    · rw [List.reverse_concat, List.takeWhile_cons_of_neg (by decide)]
  have hplain := bne_of_not_mem (mt List.mem_reverse.mp hx)
  rw [splitLast, List.reverse_append, List.takeWhile_append_of_pos hplain, hends, List.append_nil,
    List.reverse_reverse]
  simp

theorem getLast?_parts (hs : path.toList = dir ++ x) (hdir : EndsDirectory dir) (hx : '/' ∉ x)
    (hne : x ≠ []) (hdot : x ≠ ['.']) : (parts path).getLast? = some (String.ofList x) := by
  have hkeep : ([x].filter fun p => p ≠ [] ∧ p ≠ ['.']) = [x] := by simp [hne, hdot]
  obtain ⟨ps, hps⟩ : ∃ ps, splitSlash path.toList = ps ++ [x] := by
    obtain rfl | ⟨d, rfl⟩ := hdir
    · exact ⟨[], hs ▸ splitSlash_of_no_slash hx⟩
    · refine ⟨splitSlash d, ?_⟩
      rw [hs, List.append_assoc, List.singleton_append, splitSlash_append,
        splitSlash_of_no_slash hx]
  rw [parts, hps, List.filter_append, hkeep, List.map_append, List.map_singleton,
    List.getLast?_concat]

theorem parts_append_slash (s : List Char) :
    parts (String.ofList (s ++ ['/'])) = parts (String.ofList s) := by
  rw [parts, parts, String.toList_ofList, String.toList_ofList, splitSlash_append,
    List.filter_append]
  simp [splitSlash]

theorem parts_append_dot (s : List Char) :
    parts (String.ofList (s ++ ['/', '.'])) = parts (String.ofList s) := by
  rw [parts, parts, String.toList_ofList, String.toList_ofList, splitSlash_append,
    List.filter_append]
  simp [splitSlash]

theorem dropTrailing_spec (fuel : Nat) (s : List Char) :
    parts (String.ofList (dropTrailing fuel s)) = parts (String.ofList s) ∧
      (s.length ≤ fuel → ∀ r, dropTrailing fuel s ≠ r ++ ['/'] ∧
        dropTrailing fuel s ≠ r ++ ['/', '.']) := by
  induction fuel generalizing s with
  | zero =>
    refine ⟨rfl, fun hlength r => ?_⟩
    rw [List.length_eq_zero_iff.mp (Nat.le_zero.mp hlength)]
    simp [dropTrailing]
  | succ fuel ih =>
    rw [dropTrailing]
    split
    · rename_i r hs
      have hs : s = r.reverse ++ ['/'] := by rw [← List.reverse_cons, ← hs, List.reverse_reverse]
      obtain ⟨hparts, hdone⟩ := ih r.reverse
      refine ⟨by rw [hparts, hs, parts_append_slash], fun hlength => hdone ?_⟩
      rw [hs] at hlength
      simpa using hlength
    · rename_i r hs
      have hs : s = r.reverse ++ ['/', '.'] := by
        rw [← List.reverse_reverse s, hs]
        simp
      obtain ⟨hparts, hdone⟩ := ih r.reverse
      refine ⟨by rw [hparts, hs, parts_append_dot], fun hlength => hdone ?_⟩
      rw [hs] at hlength
      simp at hlength ⊢
      omega
    · rename_i hslash hdot
      refine ⟨rfl, fun _ r => ⟨?_, ?_⟩⟩
      · rintro rfl
        exact hslash r.reverse (by simp)
      · rintro rfl
        exact hdot r.reverse (by simp)

theorem fileName?_eq_some_iff :
    fileName? path = some name ↔ (parts path).getLast? = some name ∧ name ≠ ".." := by
  rw [fileName?]
  split
  · rename_i p hp
    rw [hp, Option.some.injEq]
    split
    · rename_i hup
      simp [← hup, eq_comm]
    · rename_i hup
      simp only [Option.some.injEq]
      constructor
      · rintro rfl
        exact ⟨rfl, hup⟩
      · exact And.left
  · rename_i hp
    simp [hp]

theorem dropTrailing_eq (h : fileName? path = some name) :
    ∃ dir, dropTrailing path.toList.length path.toList = dir ++ name.toList ∧ EndsDirectory dir ∧
    '/' ∉ name.toList := by
  obtain ⟨hlast, -⟩ := fileName?_eq_some_iff.mp h
  obtain ⟨hparts, hdone⟩ := dropTrailing_spec path.toList.length path.toList
  obtain ⟨dir, x, hs, hdir, hx⟩ := exists_split (dropTrailing path.toList.length path.toList)
  rw [hs] at hparts
  have hdone := hs ▸ hdone le_rfl
  rw [String.ofList_toList] at hparts
  have hname : x = name.toList := by
    by_cases hne : x = []
    · obtain rfl | ⟨d, rfl⟩ := hdir
      · rw [← hparts, hne] at hlast
        cases hlast
      · exact absurd (by rw [hne, List.append_nil]) (hdone d).1
    by_cases hdot : x = ['.']
    · obtain rfl | ⟨d, rfl⟩ := hdir
      · rw [← hparts, hdot] at hlast
        cases hlast
      · exact absurd (by rw [hdot]; simp) (hdone d).2
    have hx := getLast?_parts String.toList_ofList hdir hx hne hdot
    rw [hparts, hlast, Option.some.injEq] at hx
    rw [hx, String.toList_ofList]
  exact ⟨dir, hname ▸ hs, hdir, hname ▸ hx⟩

theorem stem_cases (n : List Char) :
    stem n = n ∨ ∃ ending, n = stem n ++ '.' :: ending ∧ '.' ∉ ending := by
  rw [stem]
  split
  · exact .inl rfl
  · rename_i r hr
    by_cases hdot : '.' ∈ n.reverse
    · obtain ⟨ending, front, hn, hending⟩ := List.eq_append_cons_of_mem hdot
      rw [hn, List.dropWhile_append_of_pos (bne_of_not_mem hending),
        List.dropWhile_cons_of_neg (by decide), List.drop_one, List.tail_cons]
      refine .inr ⟨ending.reverse, ?_, mt List.mem_reverse.mp hending⟩
      rw [← List.reverse_reverse n, hn]
      simp
    · exact absurd (by simp [List.dropWhile_eq_nil_iff.mpr (bne_of_not_mem hdot)]) hr

theorem mem_of_mem_stem {n : List Char} {c : Char} (h : c ∈ stem n) : c ∈ n := by
  obtain hstem | ⟨ending, hn, -⟩ := stem_cases n
  · exact hstem ▸ h
  · rw [hn]
    exact List.mem_append_left _ h

theorem stem_append_ne {ending : List Char} (n : List Char) (h : '.' ∈ ending) :
    stem n ++ '.' :: ending ≠ n := by
  intro heq
  obtain hstem | ⟨last, hn, hlast⟩ := stem_cases n
  · rw [hstem] at heq
    have hlength := congrArg List.length heq
    simp at hlength
  · obtain ⟨-, rfl⟩ := List.cons.inj (List.append_cancel_left (heq.trans hn))
    exact hlast h

/-- What the extension has to be for the new name to be one. -/
structure IsExtension (extension : String) : Prop where
  slash : '/' ∉ extension.toList
  last : ∃ front c, extension.toList = front ++ [c] ∧ c ≠ '.'

theorem fileName?_withExtension (h : fileName? path = some name) (hext : IsExtension extension) :
    fileName? (withExtension path extension) =
      some (String.ofList (stem name.toList ++ '.' :: extension.toList)) := by
  obtain ⟨dir, hs, hdir, hslash⟩ := dropTrailing_eq h
  obtain ⟨front, c, hlast, hc⟩ := hext.last
  have hends : ∀ bad : List Char, bad.getLast? ≠ some c →
      stem name.toList ++ '.' :: extension.toList ≠ bad := by
    rintro bad hbad rfl
    rw [hlast, ← List.cons_append, ← List.append_assoc, List.getLast?_concat] at hbad
    exact hbad rfl
  have hnew : (withExtension path extension).toList =
      dir ++ (stem name.toList ++ '.' :: extension.toList) := by
    have hpoint : ".".toList = ['.'] := by decide
    rw [withExtension, h]
    dsimp only
    rw [hs, splitLast_append hdir hslash, String.toList_append, String.toList_append,
      String.toList_ofList, hpoint]
    simp
  rw [fileName?_eq_some_iff]
  constructor
  · apply getLast?_parts hnew hdir
    · rw [List.mem_append, List.mem_cons, not_or, not_or]
      exact ⟨fun hmem => hslash (mem_of_mem_stem hmem), by decide, hext.slash⟩
    · simp
    · exact hends _ (by simpa using hc.symm)
  · intro heq
    have hchars := congrArg String.toList heq
    rw [String.toList_ofList] at hchars
    exact hends _ (by simpa using hc.symm) hchars

theorem getLast?_target (cwd : Location) (h : fileName? path = some name) :
    (target cwd path).getLast? = some name := by
  obtain ⟨hlast, hup⟩ := fileName?_eq_some_iff.mp h
  obtain ⟨ps, hps⟩ := List.getLast?_eq_some_iff.mp hlast
  rw [target, hps, List.foldl_append, List.foldl_cons, List.foldl_nil, if_neg hup,
    List.getLast?_concat]

/-- The path with an extension of two parts leads to another place. -/
theorem target_withExtension_ne (cwd : Location) (h : fileName? path = some name)
    (hext : IsExtension extension) (hpoint : '.' ∈ extension.toList) :
    target cwd path ≠ target cwd (withExtension path extension) := by
  intro heq
  have hnew := getLast?_target cwd (fileName?_withExtension h hext)
  rw [← heq, getLast?_target cwd h, Option.some.injEq] at hnew
  have hchars := congrArg String.toList hnew
  rw [String.toList_ofList] at hchars
  exact stem_append_ne name.toList hpoint hchars.symm

end NoiseTimeline.Path
