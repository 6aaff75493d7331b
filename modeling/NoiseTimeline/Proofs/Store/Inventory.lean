import Mathlib.Data.List.Dedup
import NoiseTimeline.Proofs.Chart.Catalog

/-! The whole of what a directory holds after results were stored in it. Each tuple of
size, kind of noise, threshold, stride and block size has a timeline and a log, those
stored last, and there is no other entry. -/

namespace NoiseTimeline

/-- What the names of a run's artifacts tell of it. -/
structure ArtifactKey where
  size : Nat
  property : NoiseProperty
  threshold : Nat
  stride : Nat
  blockSize : Nat
  deriving DecidableEq

theorem NoiseProperty.token_append_inj {p q : NoiseProperty} {s t : List Char}
    (h : p.token.toList ++ s = q.token.toList ++ t) : p = q ∧ s = t := by
  have hlength : p.token.toList.length = q.token.toList.length := by
    cases p <;> cases q <;> decide
  obtain ⟨htoken, hrest⟩ := List.append_inj h hlength
  refine ⟨?_, hrest⟩
  revert htoken
  cases p <;> cases q <;> decide

namespace RunConfig

variable {c d : RunConfig}

def artifactKey (c : RunConfig) : ArtifactKey :=
  ⟨c.size, c.property, c.threshold, c.stride, c.blockSize⟩

theorem stemFront_append_inj {s t : List Char} (h : c.stemFront ++ s = d.stemFront ++ t) :
    c.size = d.size ∧ c.property = d.property ∧ s = t := by
  have hcross : ∀ s : List Char, ∀ x ∈ ('x' :: s).head?, isDigit x = false := by
    rintro s x ⟨⟩
    decide
  have hbar : ∀ s : List Char, ∀ x ∈ ('_' :: s).head?, isDigit x = false := by
    rintro s x ⟨⟩
    decide
  unfold stemFront at h
  simp only [List.append_assoc, List.cons_append] at h
  obtain ⟨hsize, h⟩ :=
    Decimal.digitTexts_append_inj (hcross _) (hcross _) (List.append_cancel_left h)
  obtain ⟨-, h⟩ := Decimal.digitTexts_append_inj (hbar _) (hbar _) (List.cons.inj h).2
  obtain ⟨hproperty, h⟩ := NoiseProperty.token_append_inj (List.cons.inj h).2
  exact ⟨hsize, hproperty, List.append_cancel_left h⟩

/-- The width of a window is a multiple of the stride, which gives the number of its samples
back. -/
theorem artifactStem_eq_iff (hc : 0 < c.stride) :
    c.artifactStem = d.artifactStem ↔ c.artifactKey = d.artifactKey := by
  constructor
  · intro h
    have hword : ∀ s : List Char, ∀ x ∈ ("_stride_".toList ++ s).head?, isDigit x = false := by
      rintro s x ⟨⟩
      decide
    have hword' : ∀ s : List Char, ∀ x ∈ ("_block_size_".toList ++ s).head?, isDigit x = false := by
      rintro s x ⟨⟩
      decide
    have hchars := congrArg String.toList h
    rw [toList_artifactStem, toList_artifactStem] at hchars
    obtain ⟨hsize, hproperty, hchars⟩ := stemFront_append_inj hchars
    obtain ⟨hthreshold, hchars⟩ :=
      Decimal.digitTexts_append_inj (hword _) (hword _) (List.append_cancel_left hchars)
    obtain ⟨hstride, hchars⟩ :=
      Decimal.digitTexts_append_inj (hword' _) (hword' _) (List.append_cancel_left hchars)
    have hwidth : c.blockSize * c.stride = d.blockSize * d.stride :=
      Decimal.digitTexts_inj (List.append_cancel_left hchars)
    rw [← hstride] at hwidth
    have hblock : c.blockSize = d.blockSize := Nat.eq_of_mul_eq_mul_right hc hwidth
    simp only [artifactKey, hsize, hproperty, hthreshold, hstride, hblock]
  · intro h
    obtain ⟨hsize, hproperty, hthreshold, hstride, hblock⟩ := ArtifactKey.mk.inj h
    have hwidth : c.width = d.width := by
      rw [width, width, hblock, hstride]
    unfold artifactStem
    rw [hsize, hproperty, hthreshold, hstride, hwidth]

end RunConfig

namespace StoredFile

variable {f g : StoredFile} {c d : RunConfig}

theorem eq_of_suffix (h : f.ending.toList <:+ g.ending.toList) : f = g := by
  revert h
  cases f <;> cases g <;> decide

/-- No file of one configuration has the name of a file of another, or of another file of its
own. -/
theorem name_eq_iff (hc : 0 < c.stride) :
    f.name c = g.name d ↔ f = g ∧ c.artifactKey = d.artifactKey := by
  rw [← RunConfig.artifactStem_eq_iff hc, name_eq, name_eq]
  constructor
  · intro h
    have hchars : c.artifactStem.toList ++ f.ending.toList =
        d.artifactStem.toList ++ g.ending.toList := by
      rw [← String.toList_append, ← String.toList_append, h]
    have hf : f.ending.toList <:+ d.artifactStem.toList ++ g.ending.toList :=
      hchars ▸ List.suffix_append _ _
    obtain rfl : f = g := by
      rcases List.suffix_or_suffix_of_suffix hf (List.suffix_append _ _) with hsuffix | hsuffix
      · exact eq_of_suffix hsuffix
      · exact (eq_of_suffix hsuffix).symm
    exact ⟨rfl, String.toList_inj.mp (List.append_cancel_right hchars)⟩
  · rintro ⟨rfl, hstem⟩
    rw [hstem]

end StoredFile

namespace Artifacts

variable {σ : Type} {host : Host σ} {tree : σ → FileTree} {cwd : σ → Location} {s s' : σ}
  {dir : String} {l : Location} {k : Result} {ks done : List Result} {key : ArtifactKey}

/-- The last result with these numbers in its names. -/
def lastWith (ks : List Result) (key : ArtifactKey) : Option Result :=
  (ks.filter fun k => k.config.artifactKey = key).getLast?

theorem lastWith_concat (ks : List Result) (k : Result) (key : ArtifactKey) :
    lastWith (ks ++ [k]) key = if k.config.artifactKey = key then some k else lastWith ks key := by
  rw [lastWith, List.filter_append]
  split
  · rename_i h
    simp [h]
  · rename_i h
    simp [h, lastWith]

theorem lastWith_eq_some (h : lastWith ks key = some k) : k ∈ ks ∧ k.config.artifactKey = key := by
  have hmem := List.mem_filter.mp (List.mem_of_getLast? h)
  exact ⟨hmem.1, by simpa using hmem.2⟩

theorem exists_lastWith (h : k ∈ ks) : ∃ last, lastWith ks k.config.artifactKey = some last := by
  have hmem : k ∈ ks.filter fun k' => k'.config.artifactKey = k.config.artifactKey :=
    List.mem_filter.mpr ⟨h, by simp⟩
  exact ⟨_, List.getLast?_eq_some_getLast (List.ne_nil_of_mem hmem)⟩

/-- The results that are still there: for each tuple of numbers the last. -/
def latest (ks : List Result) : List Result :=
  (ks.map fun k => k.config.artifactKey).dedup.filterMap (lastWith ks)

theorem mem_latest : k ∈ latest ks ↔ lastWith ks k.config.artifactKey = some k := by
  unfold latest
  rw [List.mem_filterMap]
  constructor
  · rintro ⟨key, -, hlast⟩
    obtain ⟨-, rfl⟩ := lastWith_eq_some hlast
    exact hlast
  · intro hlast
    exact ⟨_, List.mem_dedup.mpr (List.mem_map_of_mem (lastWith_eq_some hlast).1), hlast⟩

theorem artifactKey_latest (ks : List Result) :
    (latest ks).map (fun k => k.config.artifactKey) =
      (ks.map fun k => k.config.artifactKey).dedup := by
  have hkey : ∀ key ∈ (ks.map fun k => k.config.artifactKey).dedup,
      (lastWith ks key).map (fun k => k.config.artifactKey) = some key := by
    intro key hmem
    obtain ⟨k, hk, rfl⟩ := List.mem_map.mp (List.mem_dedup.mp hmem)
    obtain ⟨last, hlast⟩ := exists_lastWith hk
    rw [hlast, Option.map_some, (lastWith_eq_some hlast).2]
  unfold latest
  rw [List.map_filterMap, List.filterMap_congr hkey, List.filterMap_some]

end Artifacts

/-- The files that a result is kept in, with what they hold. -/
def Result.files (k : Result) : List (String × ByteArray) :=
  [(k.config.csvName, (TimelineCsv.write k.timeline).toUTF8), (k.config.logName, k.log.toUTF8)]

theorem Result.exists_name_of_mem_files {k : Result} {e : String × ByteArray} (h : e ∈ k.files) :
    ∃ f : StoredFile, e.1 = f.name k.config := by
  rw [Result.files, List.mem_pair] at h
  rcases h with rfl | rfl
  · exact ⟨.csv, rfl⟩
  · exact ⟨.log, rfl⟩

namespace Artifacts

theorem StoredIn.content {t t' : FileTree} (h : StoredIn t t' l k) :
    ∀ e ∈ k.files, e.1.utf8ByteSize ≤ FileTree.nameLimit ∧
      ∃ executable, t'.node? (l ++ [e.1]) = some (.file e.2 executable) := by
  intro e he
  rw [Result.files, List.mem_pair] at he
  rcases he with rfl | rfl
  · exact ⟨h.short, h.csv⟩
  · exact ⟨h.shortLog, h.log⟩

theorem StoredIn.node?_of_ne {t t' : FileTree} {name : String} (h : StoredIn t t' l k)
    (hname : ∀ f : StoredFile, name ≠ f.name k.config) :
    t'.node? (l ++ [name]) = t.node? (l ++ [name]) := by
  apply h.others
  intro hmem
  simp only [List.map_cons, List.map_nil, List.mem_cons, List.not_mem_nil, or_false,
    List.append_cancel_left_eq, List.cons.injEq, and_true] at hmem
  rcases hmem with hmem | hmem | hmem | hmem
  · exact hname .csv hmem
  · exact hname .log hmem
  · exact hname .csvTemporary hmem
  · exact hname .logTemporary hmem

theorem StoredIn.mem_files {t t' : FileTree} {f : StoredFile} (h : StoredIn t t' l k)
    (hname : (t'.node? (l ++ [f.name k.config])).isSome = true) :
    f.name k.config ∈ k.files.map Prod.fst := by
  cases f with
  | csv => exact List.mem_cons_self
  | log => exact List.mem_cons_of_mem _ List.mem_cons_self
  | csvTemporary =>
    rw [StoredFile.name, h.csvTemporary] at hname
    cases hname
  | logTemporary =>
    rw [StoredFile.name, h.logTemporary] at hname
    cases hname

/-- A directory with the last result for each tuple of numbers and without any other entry. -/
structure Holds (t : FileTree) (l : Location) (ks : List Result) : Prop where
  content : ∀ k, lastWith ks k.config.artifactKey = some k → ∀ e ∈ k.files,
    e.1.utf8ByteSize ≤ FileTree.nameLimit ∧
    ∃ executable, t.node? (l ++ [e.1]) = some (.file e.2 executable)
  only : ∀ name, (t.node? (l ++ [name])).isSome = true →
    ∃ k, lastWith ks k.config.artifactKey = some k ∧ name ∈ k.files.map Prod.fst

theorem holds_nil {t : FileTree} (h : t.names l = []) : Holds t l [] where
  content k hk := nomatch hk
  only name hname := by
    rw [← FileTree.mem_names, h] at hname
    cases hname

theorem Holds.concat {t t' : FileTree} (hdone : Holds t l done) (hvalid : 0 < k.config.stride)
    (h : StoredIn t t' l k) :
    Holds t' l (done ++ [k]) := by
  constructor
  · intro k' hk' e he
    rw [lastWith_concat] at hk'
    split at hk'
    · obtain rfl := Option.some.inj hk'
      exact h.content e he
    · rename_i hkey
      obtain ⟨hshort, executable, hnode⟩ := hdone.content k' hk' e he
      obtain ⟨f, hf⟩ := Result.exists_name_of_mem_files he
      refine ⟨hshort, executable, ?_⟩
      rw [h.node?_of_ne, hnode]
      intro g hg
      exact hkey ((StoredFile.name_eq_iff hvalid).mp (hg.symm.trans hf)).2
  · intro name hname
    by_cases hnew : ∃ f : StoredFile, name = f.name k.config
    · obtain ⟨f, rfl⟩ := hnew
      refine ⟨k, ?_, h.mem_files hname⟩
      rw [lastWith_concat, if_pos rfl]
    · push Not at hnew
      rw [h.node?_of_ne hnew] at hname
      obtain ⟨k', hk', hmem⟩ := hdone.only name hname
      refine ⟨k', ?_, hmem⟩
      -- The new result has other numbers, for otherwise the name would be one of its own.
      rw [lastWith_concat, if_neg, hk']
      intro hkey
      obtain ⟨e, he, rfl⟩ := List.mem_map.mp hmem
      obtain ⟨f, hf⟩ := Result.exists_name_of_mem_files he
      exact hnew f (hf.trans ((StoredFile.name_eq_iff hvalid).mpr ⟨rfl, hkey⟩).symm)

theorem holds_of_allStored (hf : host.HasFiles tree cwd) (hl : (tree s).locate (cwd s) dir = .ok l)
    (hnode : (tree s).node? l = some .directory) (hvalid : ∀ k ∈ ks, 0 < k.config.stride)
    (hdone : Holds (tree s) l done) (h : AllStored host dir ks s s') :
    Holds (tree s') l (done ++ ks) := by
  induction ks generalizing s done with
  | nil =>
    obtain rfl : s' = s := h
    rw [List.append_nil]
    exact hdone
  | cons k ks ih =>
    obtain ⟨a, s₁, hpersist, hrest⟩ := h
    obtain ⟨hk, hks⟩ := List.forall_mem_cons.mp hvalid
    obtain ⟨hstored, hcwd⟩ := storedIn_of_persist hf hl hnode hpersist
    have hl₁ : (tree s₁).locate (cwd s₁) dir = .ok l := by
      rw [hcwd]
      exact hstored.directories.locate_eq hl
    have hall := ih hl₁ ((hstored.directories l).mp hnode) hks (hdone.concat hk hstored) hrest
    rwa [List.append_assoc, List.singleton_append] at hall

theorem nodup_files_latest (hvalid : ∀ k ∈ ks, 0 < k.config.stride) :
    (((latest ks).flatMap Result.files).map Prod.fst).Nodup := by
  have hkeys : ((latest ks).map fun k => k.config.artifactKey).Nodup := by
    rw [artifactKey_latest]
    exact List.nodup_dedup _
  rw [List.map_flatMap, List.nodup_flatMap]
  constructor
  · intro k _
    simpa [Result.files] using RunConfig.csvName_ne_logName k.config k.config
  · refine (List.pairwise_map.mp hkeys).imp_of_mem ?_
    intro k k' hk _ hkey name hname hname'
    obtain ⟨e, he, rfl⟩ := List.mem_map.mp hname
    obtain ⟨e', he', heq⟩ := List.mem_map.mp hname'
    obtain ⟨f, hf⟩ := Result.exists_name_of_mem_files he
    obtain ⟨f', hf'⟩ := Result.exists_name_of_mem_files he'
    have hstride := hvalid k (lastWith_eq_some (mem_latest.mp hk)).1
    exact hkey ((StoredFile.name_eq_iff hstride).mp (hf.symm.trans (heq.symm.trans hf'))).2

/-- A directory that was empty has, after results were stored in it, the files of the last result
for each size, kind of noise, threshold, stride and block size, and no others; for the names of
valid configurations tell these apart. -/
theorem directory_has_last_results (hf : host.HasFiles tree cwd) (hdistinct : (tree s).Distinct)
    (hempty : (tree s).list (cwd s) dir = .ok []) (hvalid : ∀ k ∈ ks, k.config.IsValid)
    (hstored : AllStored host dir ks s s') :
    (∃ (kept : List Result) (listed : List String),
      kept.map (fun k => k.config.artifactKey) = (ks.map fun k => k.config.artifactKey).dedup ∧
      (∀ k ∈ kept, lastWith ks k.config.artifactKey = some k) ∧
      (tree s').list (cwd s') dir = .ok listed ∧
      listed.Perm ((kept.flatMap Result.files).map Prod.fst) ∧
      ∀ e ∈ kept.flatMap Result.files, (tree s').read (cwd s') (Path.join dir e.1) = .ok e.2) ∧
    ∀ c d : RunConfig, c.IsValid → d.IsValid →
      ∀ f g : StoredFile, f.name c = g.name d ↔ f = g ∧ c.artifactKey = d.artifactKey := by
  refine ⟨?_, fun c d hc _ f g => StoredFile.name_eq_iff hc.stride_pos⟩
  have hstride : ∀ k ∈ ks, 0 < k.config.stride := fun k hk => (hvalid k hk).stride_pos
  obtain ⟨l, hl, hnode, hnone⟩ := FileTree.list_eq_ok hempty
  obtain ⟨hcwd, hdirs, hkeep, -, -⟩ := node?_of_allStored hf hl hnode hstored
  have hholds := holds_of_allStored hf hl hnode hstride (holds_nil hnone.symm) hstored
  rw [List.nil_append] at hholds
  have hl' : (tree s').locate (cwd s') dir = .ok l := by
    rw [hcwd]
    exact hdirs.locate_eq hl
  have hnode' := (hdirs l).mp hnode
  refine ⟨latest ks, (tree s').names l, artifactKey_latest ks, fun k hk => mem_latest.mp hk,
    FileTree.list_of_directory hl' hnode', ?_, ?_⟩
  · rw [List.perm_ext_iff_of_nodup ((hkeep hdistinct).nodup_names l) (nodup_files_latest hstride)]
    intro name
    rw [FileTree.mem_names, List.map_flatMap, List.mem_flatMap]
    constructor
    · intro hname
      obtain ⟨k, hk, hmem⟩ := hholds.only name hname
      exact ⟨k, mem_latest.mpr hk, hmem⟩
    · rintro ⟨k, hk, hmem⟩
      obtain ⟨e, he, rfl⟩ := List.mem_map.mp hmem
      obtain ⟨-, executable, hfile⟩ := hholds.content k (mem_latest.mp hk) e he
      rw [hfile]
      rfl
  · intro e he
    obtain ⟨k, hk, he⟩ := List.mem_flatMap.mp he
    obtain ⟨hshort, executable, hfile⟩ := hholds.content k (mem_latest.mp hk) e he
    have hname : Path.IsName e.1 := by
      rw [Result.files, List.mem_pair] at he
      rcases he with rfl | rfl
      · exact isName_csvName _
      · exact isName_logName _
    refine FileTree.read_eq_of_file ?_ hfile (Path.wantsDirectory_join hname)
    rw [FileTree.locate_join hl' hnode' hname, if_neg (Nat.not_lt.mpr hshort)]

/-- An empty directory. -/
def emptyStore : Machine where
  tree := ⟨[(["r"], .directory)]⟩

/-- Three results; the first and the last have the same names, though their horizons differ. -/
def repeated : List Result := [
  ⟨{ size := 2, property := .irDrop }, [], "first"⟩,
  ⟨{ size := 2, property := .diDt }, [], "second"⟩,
  ⟨{ size := 2, property := .irDrop, horizon := some 9 }, [⟨0, .one⟩], "third"⟩]

theorem repeated_leaves_last : ∃ (kept : List Result) (listed : List String),
    kept.map (fun k => k.config.artifactKey) = (repeated.map fun k => k.config.artifactKey).dedup ∧
    (∀ k ∈ kept, lastWith repeated k.config.artifactKey = some k) ∧
    (Catalog.storeAll repeated emptyStore).2.tree.list (Catalog.storeAll repeated emptyStore).2.cwd
      "r" = .ok listed ∧
    listed.Perm ((kept.flatMap Result.files).map Prod.fst) ∧
    ∀ e ∈ kept.flatMap Result.files, (Catalog.storeAll repeated emptyStore).2.tree.read
      (Catalog.storeAll repeated emptyStore).2.cwd (Path.join "r" e.1) = .ok e.2 := by
  have hempty : emptyStore.tree.list emptyStore.cwd "r" = .ok [] := by
    decide +kernel
  have hlocate : emptyStore.tree.locate emptyStore.cwd "r" = .ok ["r"] := by
    decide +kernel
  have hconfigs : ∀ k ∈ repeated, k.config.validated = .ok k.config ∧
      (∀ h ∈ k.config.horizon, h < wordLimit) ∧ k.config.size < halfWordLimit ∧
      k.config.threshold < halfWordLimit := by
    decide
  have hvalid : ∀ k ∈ repeated, k.config.IsValid := by
    intro k hk
    obtain ⟨hvalidated, hhorizon, hsize, hthreshold⟩ := hconfigs k hk
    exact ⟨hvalidated, hhorizon, hsize, hthreshold⟩
  have hdistinct : emptyStore.tree.Distinct := by
    unfold FileTree.Distinct
    decide
  have hstored : AllStored Machine.host "r" repeated emptyStore
      (Catalog.storeAll repeated emptyStore).2 :=
    Catalog.allStored_storeAll fun k hk =>
      ⟨hvalid k hk, Machine.hasRoom_of_shallow hlocate (Or.inl rfl) (by decide)⟩
  exact (directory_has_last_results Machine.hasFiles_host hdistinct hempty hvalid hstored).1

end Artifacts

end NoiseTimeline
