import NoiseTimeline.Proofs.Store.Artifacts
import NoiseTimeline.Proofs.Store.Footprint

/-! Files written next to each other. Under different names none takes the place of another, and
what was there before is as it was. -/

namespace NoiseTimeline

namespace Path

variable {path name : String} {cwd : Location} {s p : List Char}

theorem of_mem_splitSlash (h : p ∈ splitSlash s) : '/' ∉ p ∧ p ⊆ s := by
  induction s generalizing p with
  | nil =>
    rw [splitSlash, List.mem_singleton] at h
    subst h
    exact ⟨List.not_mem_nil, List.nil_subset _⟩
  | cons c s ih =>
    have hlater : ∀ {p}, p ∈ splitSlash s → '/' ∉ p ∧ p ⊆ c :: s := fun hp =>
      ⟨(ih hp).1, List.subset_cons_of_subset c (ih hp).2⟩
    rw [splitSlash] at h
    split at h
    · rcases List.mem_cons.mp h with rfl | h
      · exact ⟨List.not_mem_nil, List.nil_subset _⟩
      · exact hlater h
    · rename_i hc
      split at h
      · rename_i hnil
        exact absurd hnil (splitSlash_ne_nil s)
      · rename_i q ps hsplit
        rcases List.mem_cons.mp h with rfl | h
        · obtain ⟨hslash, hsub⟩ := ih (hsplit ▸ List.mem_cons_self)
          refine ⟨?_, List.cons_subset_cons c hsub⟩
          rw [List.mem_cons, not_or]
          exact ⟨Ne.symm hc, hslash⟩
        · exact hlater (hsplit ▸ List.mem_cons_of_mem q h)

theorem isName_of_mem_parts (hnul : '\x00' ∉ path.toList) (h : name ∈ parts path)
    (hup : name ≠ "..") : IsName name := by
  obtain ⟨p, hp, rfl⟩ := List.mem_map.mp h
  obtain ⟨hp, hkeep⟩ := List.mem_filter.mp hp
  obtain ⟨hslash, hsub⟩ := of_mem_splitSlash hp
  rw [decide_eq_true_eq] at hkeep
  refine ⟨?_, ?_, hup, ?_, ?_⟩
  · rw [ne_eq, ← String.toList_inj, String.toList_ofList]
    exact hkeep.1
  · rw [ne_eq, ← String.toList_inj, String.toList_ofList]
    exact hkeep.2
  · rwa [String.toList_ofList]
  · rw [String.toList_ofList]
    exact fun hmem => hnul (hsub hmem)

theorem isName_of_mem_target (hcwd : ∀ name ∈ cwd, IsName name) (hnul : '\x00' ∉ path.toList) :
    ∀ name ∈ target cwd path, IsName name := by
  have hfold : ∀ (names : List String) (here : Location), (∀ name ∈ names, name ∈ parts path) →
      (∀ name ∈ here, IsName name) →
      ∀ name ∈ names.foldl (fun here name =>
        if name = ".." then here.dropLast else here ++ [name]) here, IsName name := by
    intro names
    induction names with
    | nil => exact fun here _ hhere => hhere
    | cons first names ih =>
      intro here hnames hhere
      obtain ⟨hfirst, hnames⟩ := List.forall_mem_cons.mp hnames
      rw [List.foldl_cons]
      refine ih _ hnames ?_
      split
      · exact fun name hname => hhere name (List.mem_of_mem_dropLast hname)
      · rename_i hup
        refine List.forall_mem_append.mpr ⟨hhere, ?_⟩
        intro name hname
        rw [List.mem_singleton.mp hname]
        exact isName_of_mem_parts hnul hfirst hup
  refine hfold _ _ (fun _ h => h) ?_
  split
  · exact fun name hname => absurd hname List.not_mem_nil
  · exact hcwd

end Path

namespace FileTree

variable {t t' t'' : FileTree} {here cwd l : Location} {dir path name : String}
  {files more : List (String × String)}

theorem isDirectory_iff :
    t.isDirectory here path = true ↔
    ∃ l, t.locate here path = .ok l ∧ t.node? l = some .directory := by
  constructor
  · intro h
    unfold isDirectory at h
    split at h
    · rename_i hfind
      exact locate_of_find hfind
    · cases h
  · rintro ⟨l, hl, hnode⟩
    exact isDirectory_of_find (find_of_directory hl hnode)

theorem SameDirectories.isDirectory_iff (h : SameDirectories t t') :
    t'.isDirectory here path = true ↔ t.isDirectory here path = true := by
  rw [FileTree.isDirectory_iff, FileTree.isDirectory_iff]
  constructor
  · rintro ⟨l, hl, hnode⟩
    exact ⟨l, h.symm.locate_eq hl, (h l).mpr hnode⟩
  · rintro ⟨l, hl, hnode⟩
    exact ⟨l, h.locate_eq hl, (h l).mp hnode⟩

/-- Entries stand at one place each, the last name of which is one that entries can have. -/
structure Named (t : FileTree) : Prop where
  distinct : t.Distinct
  isName : ∀ {l : Location} {name : String}, (t.node? (l ++ [name])).isSome = true →
    Path.IsName name

theorem WellFormed.named (h : t.WellFormed) : t.Named := ⟨h.distinct, h.isName⟩

theorem Named.put {n : FileNode} (h : t.Named) (hl : l ≠ [])
    (hname : ∀ name ∈ l.getLast?, Path.IsName name) :
    (t.put l n).Named := by
  refine ⟨h.distinct.put, ?_⟩
  intro m name hnode
  rw [node?_put hl] at hnode
  split at hnode
  · rename_i heq
    exact hname name (by rw [← heq, List.getLast?_concat]; rfl)
  · exact h.isName hnode

theorem Named.makeDirectories (h : t.Named) (hcwd : ∀ name ∈ cwd, Path.IsName name)
    (path : String) :
    (t.makeDirectories cwd path).1.Named := by
  refine makeDirectories_preserves (P := Named) ?_ h path
  intro t t' path h hmake
  unfold makeDirectory at hmake
  obtain ⟨l, hl, hmake⟩ := bind_eq_ok hmake
  split at hmake
  · cases hmake
  · rename_i hnone
    split at hmake
    · cases hmake
      have hroot : l ≠ [] := by
        rintro rfl
        cases hnone
      obtain ⟨-, hnul, -⟩ := locate_eq_ok hl
      refine h.put hroot fun name hname => ?_
      rw [eq_target_of_locate hl] at hname
      exact Path.isName_of_mem_target hcwd hnul name (List.mem_of_mem_getLast? hname)
    · cases hmake

/-- The files stand in a directory with their contents, and nothing else differs. -/
structure Written (here : Location) (dir : String) (files : List (String × String))
    (t t' : FileTree) : Prop where
  directories : SameDirectories t t'
  distinct : t.Distinct → t'.Distinct
  located : ∀ f ∈ files, t.locate here (Path.join dir f.1) = .ok (Path.target here dir ++ [f.1])
  content : ∀ f ∈ files, ∃ executable,
    t'.node? (Path.target here dir ++ [f.1]) = some (.file f.2.toUTF8 executable)
  others : ∀ l, (∀ f ∈ files, l ≠ Path.target here dir ++ [f.1]) → t'.node? l = t.node? l

theorem Written.nil (here : Location) (dir : String) (t : FileTree) : Written here dir [] t t :=
  ⟨.refl t, id, by simp, by simp, fun _ _ => rfl⟩

theorem Written.append (h : Written here dir files t t') (h' : Written here dir more t' t'')
    (hne : ∀ f ∈ files, ∀ g ∈ more, f.1 ≠ g.1) : Written here dir (files ++ more) t t'' where
  directories := h.directories.trans h'.directories
  distinct ht := h'.distinct (h.distinct ht)
  located :=
    List.forall_mem_append.mpr
      ⟨h.located, fun g hg => h.directories.symm.locate_eq (h'.located g hg)⟩
  content := by
    refine List.forall_mem_append.mpr ⟨fun f hf => ?_, h'.content⟩
    obtain ⟨executable, hnode⟩ := h.content f hf
    refine ⟨executable, ?_⟩
    rw [h'.others, hnode]
    intro g hg heq
    exact hne f hf g hg (List.singleton_inj.mp (List.append_cancel_left heq))
  others l hl := by
    obtain ⟨hl, hl'⟩ := List.forall_mem_append.mp hl
    rw [h'.others l hl', h.others l hl]

theorem Written.readText (h : Written here dir files t t') {f : String × String} (hf : f ∈ files)
    (hname : Path.IsName f.1) : t'.readText here (Path.join dir f.1) = .ok f.2 := by
  obtain ⟨executable, hnode⟩ := h.content f hf
  exact readText_of_file (h.directories.locate_eq (h.located f hf)) hnode
    (Path.wantsDirectory_join hname)

theorem Written.named (h : Written here dir files t t') (ht : t.Named)
    (hnames : ∀ f ∈ files, Path.IsName f.1) :
    t'.Named := by
  refine ⟨h.distinct ht.distinct, ?_⟩
  intro l name hnode
  by_cases hwritten : ∃ f ∈ files, l ++ [name] = Path.target here dir ++ [f.1]
  · obtain ⟨f, hf, heq⟩ := hwritten
    obtain ⟨-, hname⟩ := List.append_inj' heq rfl
    rw [List.singleton_inj.mp hname]
    exact hnames f hf
  · push Not at hwritten
    rw [h.others _ hwritten] at hnode
    exact ht.isName hnode

end FileTree

variable {σ : Type} {host : Host σ} {tree : σ → FileTree} {cwd : σ → Location} {s s' : σ}
  {dir : String}

/-- The files of a host form a tree that its answers about directories are taken from. -/
structure Host.Browses (host : Host σ) (tree : σ → FileTree) (cwd : σ → Location) : Prop
    extends host.HasFiles tree cwd where
  isDirectory : ∀ path s, host.isDirectory path s = (tree s).isDirectory (cwd s) path
  listed : ∀ {path s listed}, host.list path s = .ok listed →
    ∃ names, (tree s).list (cwd s) path = .ok names

theorem Machine.browses_host : Machine.host.Browses Machine.tree Machine.cwd where
  toHasFiles := hasFiles_host
  isDirectory _ _ := rfl
  listed h := ⟨_, h⟩

theorem Host.HasFiles.written_of_writeFile (hf : host.HasFiles tree cwd) {name text : String}
    (hname : Path.IsName name) (h : host.writeFile (Path.join dir name) text s = (.ok (), s')) :
    FileTree.Written (cwd s) dir [(name, text)] (tree s) (tree s') ∧ cwd s' = cwd s := by
  obtain ⟨s₁, hcreate, hwrite⟩ := Disk.andThen_eq_ok h
  obtain ⟨hc, hcwd₁⟩ := hf.create hcreate
  obtain ⟨ha, hcwd⟩ := hf.write hwrite
  rw [hcwd₁] at ha hcwd
  obtain ⟨l, executable, hl, -, hdirs, hdistinct, hnode⟩ := FileTree.node?_of_append hc ha
  have htarget := FileTree.eq_target_of_locate hl
  rw [Path.target_join _ _ hname] at htarget
  subst htarget
  refine ⟨⟨hdirs, hdistinct, by simpa using hl, ?_, ?_⟩, hcwd⟩
  · intro f hf
    rw [List.mem_singleton.mp hf, hnode, if_pos rfl]
    exact ⟨executable, rfl⟩
  · intro m hm
    rw [hnode, if_neg (by simpa using hm)]

end NoiseTimeline
