import NoiseTimeline.Proofs.Store.Artifacts

/-! What a directory holds after results were stored in it several times. Each name
that ends as a timeline's has the content last stored under it. -/

namespace NoiseTimeline

/-- What one call stores. -/
structure Result where
  config : RunConfig
  timeline : Timeline
  log : String
  deriving DecidableEq

namespace Artifacts

variable {σ : Type} {host : Host σ} {tree : σ → FileTree} {cwd : σ → Location} {s s' : σ}
  {dir : String} {l : Location} {k : Result} {ks : List Result} {name : String}

/-- A directory after one result was stored in it: its artifacts are there, their temporary names
are gone, and nothing else has changed. -/
structure StoredIn (t t' : FileTree) (l : Location) (k : Result) : Prop where
  directories : FileTree.SameDirectories t t'
  distinct : t.Distinct → t'.Distinct
  short : k.config.csvName.utf8ByteSize ≤ FileTree.nameLimit
  shortLog : k.config.logName.utf8ByteSize ≤ FileTree.nameLimit
  csv : ∃ executable, t'.node? (l ++ [k.config.csvName]) =
    some (.file (TimelineCsv.write k.timeline).toUTF8 executable)
  log : ∃ executable, t'.node? (l ++ [k.config.logName]) = some (.file k.log.toUTF8 executable)
  csvTemporary : t'.node? (l ++ [temporary k.config.csvName]) = none
  logTemporary : t'.node? (l ++ [temporary k.config.logName]) = none
  others : ∀ m, m ∉ [k.config.csvName, k.config.logName, temporary k.config.csvName,
      temporary k.config.logName].map (fun name => l ++ [name]) →
    t'.node? m = t.node? m

theorem within_csv (dir : String) (c : RunConfig) :
    (within dir c).csv = Path.join dir c.csvName := by
  simp only [within]

theorem within_runLog (dir : String) (c : RunConfig) :
    (within dir c).runLog = Path.join dir c.logName := by
  simp only [within]

theorem locate_eq_append {t : FileTree} {here goal : Location} {name : String}
    (hl : t.locate here dir = .ok l) (hnode : t.node? l = some .directory) (h : Path.IsName name)
    (hgoal : t.locate here (Path.join dir name) = .ok goal) :
    goal = l ++ [name] ∧ name.utf8ByteSize ≤ FileTree.nameLimit := by
  rw [FileTree.locate_join hl hnode h] at hgoal
  split at hgoal
  · cases hgoal
  · rename_i hshort
    exact ⟨(Except.ok.inj hgoal).symm, Nat.not_lt.mp hshort⟩

theorem replaceFile_join (hf : host.HasFiles tree cwd) {name text : String}
    (hname : Path.IsName name) (htemporary : Path.IsName (temporary name))
    (hl : (tree s).locate (cwd s) dir = .ok l) (hnode : (tree s).node? l = some .directory)
    (h : host.replaceFile (temporary (Path.join dir name)) (Path.join dir name) text s =
      (.ok (), s')) :
    FileTree.Replaced (tree s) (tree s') (l ++ [temporary name]) (l ++ [name]) text.toUTF8 ∧
      cwd s' = cwd s ∧ name.utf8ByteSize ≤ FileTree.nameLimit := by
  obtain ⟨origin, goal, horigin, hgoal, -, hrep, hcwd⟩ := hf.replaceFile_eq_ok h
  rw [temporary_join dir hname htemporary] at horigin
  obtain ⟨rfl, -⟩ := locate_eq_append hl hnode htemporary horigin
  obtain ⟨rfl, hshort⟩ := locate_eq_append hl hnode hname hgoal
  exact ⟨hrep, hcwd, hshort⟩

theorem storedIn_of_persist (hf : host.HasFiles tree cwd) (hl : (tree s).locate (cwd s) dir = .ok l)
    (hnode : (tree s).node? l = some .directory) {a : Artifacts}
    (h : persist host dir k.config k.timeline k.log s = (.ok a, s')) :
    StoredIn (tree s) (tree s') l k ∧ cwd s' = cwd s := by
  obtain ⟨-, s₁, s₂, s₃, hmake, hlog, hcsv, line, rfl⟩ := persist_eq_ok h
  rw [within_runLog] at hlog
  rw [within_csv] at hcsv
  have hfind := FileTree.find_of_directory hl hnode
  obtain ⟨hmade, hcwd₁⟩ := hf.makeDirectories hmake
  rw [FileTree.makeDirectories_of_find hfind] at hmade
  have htree₁ : tree s = tree s₁ := congrArg Prod.fst hmade
  rw [htree₁] at hnode hl ⊢
  rw [← hcwd₁] at hl ⊢
  obtain ⟨hrep₂, hcwd₂, hshort₂⟩ :=
    replaceFile_join hf (isName_logName _) (isName_temporary_logName _) hl hnode hlog
  have hl₂ : (tree s₂).locate (cwd s₂) dir = .ok l := by
    rw [hcwd₂]
    exact hrep₂.directories.locate_eq hl
  obtain ⟨hrep₃, hcwd₃, hshort⟩ :=
    replaceFile_join hf (isName_csvName _) (isName_temporary_csvName _) hl₂
      ((hrep₂.directories l).mp hnode) hcsv
  obtain ⟨htree, hcwd⟩ := hf.say line s₃
  have hother : ∀ name name' : String, name ≠ name' → l ++ [name] ≠ l ++ [name'] := by
    intro name name' hne heq
    exact hne (List.singleton_inj.mp (List.append_cancel_left heq))
  have hlogcsv := hother _ _ (RunConfig.csvName_ne_logName k.config k.config).symm
  have hlogtmp := hother _ _ (temporary_ne_logName k.config.csvName k.config).symm
  have htmpcsv := hother _ _ (temporary_ne_csvName k.config.logName k.config)
  have htmptmp :=
    hother _ _ fun h => RunConfig.csvName_ne_logName k.config k.config (temporary_inj h).symm
  rw [htree, hcwd, hcwd₃]
  refine ⟨⟨hrep₂.directories.trans hrep₃.directories, fun h => hrep₃.distinct (hrep₂.distinct h),
    hshort, hshort₂, hrep₃.content, ?_, ?_, ?_, ?_⟩, hcwd₂⟩
  · rw [hrep₃.others _ hlogcsv hlogtmp]
    exact hrep₂.content
  · exact hrep₃.temporary (hother _ _ (temporary_ne_csvName _ _))
  · rw [hrep₃.others _ htmpcsv htmptmp]
    exact hrep₂.temporary (hother _ _ (temporary_ne_logName _ _))
  · intro m hm
    simp only [List.map_cons, List.map_nil, List.mem_cons, List.not_mem_nil, or_false, not_or] at hm
    rw [hrep₃.others m hm.1 hm.2.2.1, hrep₂.others m hm.2.1 hm.2.2.2]

theorem StoredIn.csv_of_ne {t t' : FileTree} (h : StoredIn t t' l k)
    (hcsv : Catalog.isCsvName name = true) (hne : name ≠ k.config.csvName) :
    t'.node? (l ++ [name]) = t.node? (l ++ [name]) := by
  apply h.others
  have hnot : ∀ other : String, Catalog.isCsvName other = false → name ≠ other := by
    rintro other hother rfl
    rw [hcsv] at hother
    cases hother
  intro hmem
  simp only [List.map_cons, List.map_nil, List.mem_cons, List.not_mem_nil, or_false,
    List.append_cancel_left_eq, List.cons.injEq, and_true] at hmem
  rcases hmem with hmem | hmem | hmem | hmem
  · exact hne hmem
  · exact hnot _ (RunConfig.not_isCsvName_logName _) hmem
  · exact hnot _ (not_isCsvName_temporary _) hmem
  · exact hnot _ (not_isCsvName_temporary _) hmem

/-- The results are stored one after the other, each with success. -/
def AllStored (host : Host σ) (dir : String) : List Result → σ → σ → Prop
  | [], s, s' => s' = s
  | k :: ks, s, s' =>
    ∃ a s₁, persist host dir k.config k.timeline k.log s = (.ok a, s₁) ∧ AllStored host dir ks s₁ s'

/-- The result stored last under a timeline's name. -/
def lastUnder (ks : List Result) (name : String) : Option Result :=
  (ks.filter fun k => k.config.csvName = name).getLast?

theorem lastUnder_cons (k : Result) (ks : List Result) (name : String) :
    lastUnder (k :: ks) name =
      (lastUnder ks name).or (if k.config.csvName = name then some k else none) := by
  rw [lastUnder, List.filter_cons]
  split
  · rename_i h
    rw [List.getLast?_cons, if_pos (by simpa using h), lastUnder]
    cases (ks.filter fun k => k.config.csvName = name).getLast? <;> rfl
  · rename_i h
    rw [if_neg (by simpa using h), Option.or_none]
    rfl

theorem lastUnder_eq_some (h : lastUnder ks name = some k) : k ∈ ks ∧ k.config.csvName = name := by
  have hmem := List.mem_filter.mp (List.mem_of_getLast? h)
  exact ⟨hmem.1, by simpa using hmem.2⟩

/-- After some results were stored a timeline's name has the content of the last one stored under
it, or else what it had before. -/
theorem node?_of_allStored (hf : host.HasFiles tree cwd) (hl : (tree s).locate (cwd s) dir = .ok l)
    (hnode : (tree s).node? l = some .directory) (h : AllStored host dir ks s s') :
    cwd s' = cwd s ∧ FileTree.SameDirectories (tree s) (tree s') ∧
      ((tree s).Distinct → (tree s').Distinct) ∧
      (∀ k ∈ ks, k.config.csvName.utf8ByteSize ≤ FileTree.nameLimit) ∧
      ∀ name, Catalog.isCsvName name = true →
        (∀ k, lastUnder ks name = some k →
          ∃ executable, (tree s').node? (l ++ [name]) =
            some (.file (TimelineCsv.write k.timeline).toUTF8 executable)) ∧
        (lastUnder ks name = none →
          (tree s').node? (l ++ [name]) = (tree s).node? (l ++ [name])) := by
  induction ks generalizing s with
  | nil =>
    obtain rfl : s' = s := h
    refine ⟨rfl, .refl _, id, by simp, fun name _ => ⟨?_, fun _ => rfl⟩⟩
    intro k hk
    cases hk
  | cons k ks ih =>
    obtain ⟨a, s₁, hpersist, hrest⟩ := h
    obtain ⟨hstored, hcwd₁⟩ := storedIn_of_persist hf hl hnode hpersist
    have hl₁ : (tree s₁).locate (cwd s₁) dir = .ok l := by
      rw [hcwd₁]
      exact hstored.directories.locate_eq hl
    obtain ⟨hcwd, hdirs, hdistinct, hshort, hcontent⟩ :=
      ih hl₁ ((hstored.directories l).mp hnode) hrest
    refine ⟨hcwd.trans hcwd₁, hstored.directories.trans hdirs,
      fun h => hdistinct (hstored.distinct h), List.forall_mem_cons.mpr ⟨hstored.short, hshort⟩, ?_⟩
    intro name hcsv
    obtain ⟨hlast, hkept⟩ := hcontent name hcsv
    rw [lastUnder_cons]
    cases hks : lastUnder ks name with
    | some k' =>
      rw [hks] at hlast
      exact ⟨fun k'' hk'' => hlast k'' hk'', fun hnone => nomatch hnone⟩
    | none =>
      rw [hkept hks, Option.none_or]
      split
      · rename_i hname
        subst hname
        refine ⟨?_, fun hnone => nomatch hnone⟩
        intro k'' hk''
        obtain rfl := Option.some.inj hk''
        exact hstored.csv
      · rename_i hname
        exact ⟨fun k'' hk'' => (nomatch hk''),
          fun _ => hstored.csv_of_ne hcsv fun h => hname h.symm⟩

end Artifacts

end NoiseTimeline
