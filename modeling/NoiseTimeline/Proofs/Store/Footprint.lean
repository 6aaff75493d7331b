import NoiseTimeline.Proofs.Store.Path

/-! Where operations on files leave their traces. Whether it succeeds or not, an operation
changes what its paths lead to and nothing else, apart from directories that are new. -/

namespace NoiseTimeline

namespace Path

/-- Where a path leads if there are directories on the way. -/
def target (cwd : Location) (path : String) : Location :=
  (parts path).foldl (fun here name => if name = ".." then here.dropLast else here ++ [name])
    (if isAbsolute path then [] else cwd)

theorem target_join {name : String} (cwd : Location) (dir : String) (h : IsName name) :
    target cwd (join dir name) = target cwd dir ++ [name] := by
  rw [target, parts_join dir h, isAbsolute_join h, List.foldl_append, List.foldl_cons,
    List.foldl_nil, if_neg h.notAbove, target]

end Path

namespace FileTree

variable {t t' t'' : FileTree} {cwd l : Location} {path : String} {ls : List Location}

theorem eq_foldl_of_walk {here : Location} {names : List String} (h : t.walk here names = .ok l) :
    l = names.foldl (fun here name => if name = ".." then here.dropLast else here ++ [name])
      here := by
  induction here, names using walk.induct t with
  | case1 here => exact (Except.ok.inj h).symm
  | case2 here rest ih => exact ih h
  | case3 here name hne hlong => simp [walk, hlong] at h
  | case4 here name hne hshort =>
    rw [List.foldl_cons, if_neg hne]
    simpa [walk, hshort] using h.symm
  | case5 here name rest hne hrest hlong => simp [walk, hlong] at h
  | case6 here name rest hne hrest hshort hdir ih =>
    simp only [walk, hshort, hdir] at h
    rw [List.foldl_cons, if_neg hne]
    exact ih h
  | case7 here name rest hne hrest hshort content executable hfile =>
    simp [walk, hshort, hfile] at h
  | case8 here name rest hne hrest hshort hnone => simp [walk, hshort, hnone] at h

theorem eq_target_of_locate (h : t.locate cwd path = .ok l) : l = Path.target cwd path :=
  eq_foldl_of_walk (locate_eq_ok h).2.2

/-- Nothing but these entries differs, and no directory is gone. -/
structure Touches (t t' : FileTree) (ls : List Location) : Prop where
  directories : KeepsDirectories t t'
  others : ∀ l, l ∉ ls → t'.node? l = t.node? l

theorem Touches.refl (t : FileTree) (ls : List Location) : Touches t t ls :=
  ⟨fun _ h => h, fun _ _ => rfl⟩

theorem touches_put {n : FileNode} (hl : l ≠ []) (hold : t.node? l ≠ some .directory) :
    Touches t (t.put l n) [l] := by
  constructor
  · intro m hm
    rw [node?_put hl, if_neg]
    · exact hm
    · rintro rfl
      exact hold hm
  · intro m hm
    rw [node?_put hl, if_neg (by simpa using hm)]

theorem touches_erase (hl : l ≠ []) (hold : t.node? l ≠ some .directory) :
    Touches t (t.erase l) [l] := by
  constructor
  · intro m hm
    rw [node?_erase hl, if_neg]
    · exact hm
    · rintro rfl
      exact hold hm
  · intro m hm
    rw [node?_erase hl, if_neg (by simpa using hm)]

theorem touches_of_create (h : t.create cwd path = .ok t') :
    Touches t t' [Path.target cwd path] := by
  obtain ⟨l, executable, hl, hroot, hold, rfl⟩ := create_eq_ok h
  rw [← eq_target_of_locate hl]
  exact touches_put hroot hold

theorem touches_of_append {bytes : ByteArray} (h : t.append cwd path bytes = .ok t') :
    Touches t t' [Path.target cwd path] := by
  obtain ⟨l, content, executable, hl, hnode, rfl⟩ := append_eq_ok h
  rw [← eq_target_of_locate hl]
  have hroot : l ≠ [] := by
    rintro rfl
    cases hnode
  exact touches_put hroot (by simp [hnode])

theorem removeFile_eq_ok (h : t.removeFile cwd path = .ok t') :
    ∃ l content executable, t.locate cwd path = .ok l ∧
    t.node? l = some (.file content executable) ∧ l ≠ [] ∧ t' = t.erase l := by
  unfold removeFile at h
  obtain ⟨n, hfind, h⟩ := bind_eq_ok h
  obtain ⟨l, hl, hnode, -⟩ := find_eq_ok hfind
  cases n with
  | directory => cases h
  | file content executable =>
    rw [hl] at h
    cases h
    refine ⟨l, content, executable, hl, hnode, ?_, rfl⟩
    rintro rfl
    cases hnode

theorem touches_of_removeFile (h : t.removeFile cwd path = .ok t') :
    Touches t t' [Path.target cwd path] := by
  obtain ⟨l, content, executable, hl, hnode, hroot, rfl⟩ := removeFile_eq_ok h
  rw [← eq_target_of_locate hl]
  exact touches_erase hroot (by simp [hnode])

theorem Touches.trans {ls' : List Location} (h : Touches t t' ls) (h' : Touches t' t'' ls') :
    Touches t t'' (ls ++ ls') where
  directories := h.directories.trans h'.directories
  others l hl := by
    obtain ⟨hl, hl'⟩ := not_or.mp (mt List.mem_append.mpr hl)
    rw [h'.others l hl', h.others l hl]

theorem touches_of_rename {source goal : String} (h : t.rename cwd source goal = .ok t')
    (hsource : t.find cwd source ≠ .ok .directory) :
    Touches t t' [Path.target cwd source, Path.target cwd goal] := by
  obtain ⟨node, origin, l, hfind, horigin, hl, hold, -, hcase⟩ := rename_eq_ok h
  rw [← eq_target_of_locate horigin, ← eq_target_of_locate hl]
  rcases hcase with ⟨-, rfl⟩ | ⟨hne, rfl⟩
  · exact .refl _ _
  · have hnode : t.node? origin ≠ some .directory := by
      intro hdir
      exact hsource (find_of_directory horigin hdir)
    have horiginRoot : origin ≠ [] := by
      rintro rfl
      exact hnode rfl
    have hroot : l ≠ [] := by
      rintro rfl
      exact hold rfl
    refine (touches_erase horiginRoot hnode).trans (touches_put hroot ?_)
    rw [node?_erase horiginRoot, if_neg (Ne.symm hne)]
    exact hold

/-- New entries are directories, and no other entry has changed. -/
structure Grows (t t' : FileTree) : Prop where
  kept : ∀ l n, t.node? l = some n → t'.node? l = some n
  new : ∀ l, t.node? l = none → t'.node? l = none ∨ t'.node? l = some .directory

theorem Grows.refl (t : FileTree) : Grows t t := ⟨fun _ _ h => h, fun _ h => Or.inl h⟩

theorem Grows.trans (h : Grows t t') (h' : Grows t' t'') : Grows t t'' where
  kept l n hn := h'.kept l n (h.kept l n hn)
  new l hl := by
    rcases h.new l hl with hnone | hdir
    · exact h'.new l hnone
    · exact Or.inr (h'.kept l _ hdir)

theorem Grows.keepsDirectories (h : Grows t t') : KeepsDirectories t t' := fun l hl => h.kept l _ hl

theorem grows_of_makeDirectory (h : t.makeDirectory cwd path = .ok t') : Grows t t' := by
  unfold makeDirectory at h
  obtain ⟨l, hl, h⟩ := bind_eq_ok h
  split at h
  · cases h
  · rename_i hnone
    split at h
    · cases h
      have hroot : l ≠ [] := by
        rintro rfl
        cases hnone
      constructor
      · intro m n hn
        rw [node?_put hroot, if_neg, hn]
        rintro rfl
        rw [hnone] at hn
        cases hn
      · intro m hm
        rw [node?_put hroot]
        split
        · exact Or.inr rfl
        · exact Or.inl hm
    · cases h

theorem makeDirectoriesWithin_preserves {P : FileTree → Prop}
    (hmake : ∀ {t t' path}, P t → t.makeDirectory cwd path = .ok t' → P t') (depth : Nat) (h : P t)
    (path : String) :
    P (makeDirectoriesWithin cwd depth t path).1 := by
  induction depth generalizing t path with
  | zero => exact h
  | succ depth ih =>
    rw [makeDirectoriesWithin]
    dsimp only
    split
    · exact h
    · split
      · rename_i hmade
        exact hmake h hmade
      · split
        · split
          · exact h
          · rename_i above habove
            have hrest := ih h above
            split
            · rename_i hfail
              rw [hfail] at hrest
              exact hrest
            · rename_i hdone
              rw [hdone] at hrest
              split
              · rename_i hmade
                exact hmake hrest hmade
              · exact hrest
        · exact h

theorem makeDirectories_preserves {P : FileTree → Prop}
    (hmake : ∀ {t t' path}, P t → t.makeDirectory cwd path = .ok t' → P t') (h : P t)
    (path : String) :
    P (t.makeDirectories cwd path).1 :=
  makeDirectoriesWithin_preserves hmake _ h path

theorem grows_makeDirectories (t : FileTree) (cwd : Location) (path : String) :
    Grows t (t.makeDirectories cwd path).1 :=
  makeDirectories_preserves (P := Grows t) (fun h hmade => h.trans (grows_of_makeDirectory hmade))
    (.refl t) path

/-- The content of the file at a location, and whether it can be executed. -/
def fileAt? (t : FileTree) (l : Location) : Option (ByteArray × Bool) :=
  match t.node? l with
  | some (.file content executable) => some (content, executable)
  | _ => none

theorem fileAt?_eq_some_iff {bytes : ByteArray} {executable : Bool} :
    t.fileAt? l = some (bytes, executable) ↔ t.node? l = some (.file bytes executable) := by
  rw [fileAt?]
  split
  · rename_i hnode
    simp [hnode]
  · rename_i hnone
    constructor
    · intro hfile
      cases hfile
    · exact fun hnode => absurd hnode (hnone _ _)

theorem fileAt?_congr (h : t'.node? l = t.node? l) : t'.fileAt? l = t.fileAt? l := by
  rw [fileAt?, fileAt?, h]

theorem Grows.fileAt?_eq (h : Grows t t') (l : Location) : t'.fileAt? l = t.fileAt? l := by
  unfold fileAt?
  cases hnode : t.node? l with
  | some n => rw [h.kept _ n hnode]
  | none =>
    rcases h.new _ hnode with hnone | hdir
    · rw [hnone]
    · rw [hdir]

end FileTree

variable {σ : Type}

/-- Whatever comes of an operation, it is confined to the places that its paths lead to. -/
structure Host.Confined (host : Host σ) (tree : σ → FileTree) (cwd : σ → Location) :
    Prop extends host.HasFiles tree cwd where
  fileExists : ∀ path s, host.fileExists path s = (tree s).exists? (cwd s) path
  remove : ∀ {path s s'}, host.remove path s = (.ok (), s') →
    (tree s).removeFile (cwd s) path = .ok (tree s') ∧ cwd s' = cwd s
  cwd_makeDirectories : ∀ path s, cwd (host.makeDirectories path s).2 = cwd s
  cwd_create : ∀ path s, cwd (host.create path s).2 = cwd s
  cwd_write : ∀ path bytes s, cwd (host.write path bytes s).2 = cwd s
  cwd_sync : ∀ path s, cwd (host.sync path s).2 = cwd s
  cwd_rename : ∀ source target s, cwd (host.rename source target s).2 = cwd s
  makesDirectories : ∀ path s, (tree s).Grows (tree (host.makeDirectories path s).2)
  creates : ∀ path s, (tree s).Touches (tree (host.create path s).2) [Path.target (cwd s) path]
  writes : ∀ path bytes s, (tree s).Touches (tree (host.write path bytes s).2)
    [Path.target (cwd s) path]
  syncs : ∀ path s, tree (host.sync path s).2 = tree s
  renames : ∀ source target s, (tree s).find (cwd s) source ≠ .ok .directory →
    (tree s).Touches (tree (host.rename source target s).2)
      [Path.target (cwd s) source, Path.target (cwd s) target]

namespace Machine

theorem touches_updated {m : Machine} {step : Except IoError FileTree} {ls : List Location}
    (h : ∀ t, step = .ok t → m.tree.Touches t ls) : m.tree.Touches (m.updated step).2.tree ls := by
  cases step with
  | error e => exact .refl _ _
  | ok t => exact h t rfl

theorem cwd_updated (m : Machine) (step : Except IoError FileTree) :
    (m.updated step).2.cwd = m.cwd := by
  cases step <;> rfl

theorem unchanged_of_updated_eq_error {m m' : Machine} {step : Except IoError FileTree}
    {e : IoError} (h : m.updated step = (.error e, m')) : m'.tree = m.tree ∧ m'.cwd = m.cwd := by
  cases step with
  | error _ =>
    cases h
    exact ⟨rfl, rfl⟩
  | ok t => cases h

theorem confined_host : host.Confined Machine.tree Machine.cwd where
  toHasFiles := hasFiles_host
  fileExists _ _ := rfl
  remove h := updated_eq_ok h
  cwd_makeDirectories _ _ := rfl
  cwd_create _ _ := cwd_updated _ _
  cwd_write _ _ _ := cwd_updated _ _
  cwd_sync _ _ := rfl
  cwd_rename _ _ _ := cwd_updated _ _
  makesDirectories path s := FileTree.grows_makeDirectories s.tree s.cwd path
  creates _ _ := touches_updated fun _ => FileTree.touches_of_create
  writes _ _ _ := touches_updated fun _ => FileTree.touches_of_append
  syncs _ _ := rfl
  renames _ _ _ hsource := touches_updated fun _ h => FileTree.touches_of_rename h hsource

end Machine

end NoiseTimeline
