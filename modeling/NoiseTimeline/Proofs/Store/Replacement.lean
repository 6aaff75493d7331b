import NoiseTimeline.Proofs.Store.FileTree
import NoiseTimeline.Shell.Host

/-! Replacing a file on any host whose files form a tree. The new content stands under
the path, the temporary name is gone, and every other entry is as it was. -/

namespace NoiseTimeline

namespace FileTree

variable {t t' : FileTree} {cwd : Location} {bytes : ByteArray}

/-- `t'` is `t` with a file at `goal` and nothing at `origin`, unless that is `goal` itself. -/
structure Replaced (t t' : FileTree) (origin goal : Location) (bytes : ByteArray) : Prop where
  directories : SameDirectories t t'
  distinct : t.Distinct → t'.Distinct
  content : ∃ executable, t'.node? goal = some (.file bytes executable)
  temporary : origin ≠ goal → t'.node? origin = none
  others : ∀ l, l ≠ goal → l ≠ origin → t'.node? l = t.node? l

/-- A new file that has taken some bytes stands in the tree; nothing else has changed. -/
theorem node?_of_append {t₂ : FileTree} {path : String} (hc : t.create cwd path = .ok t')
    (ha : t'.append cwd path bytes = .ok t₂) : ∃ l executable, t.locate cwd path = .ok l ∧ l ≠ [] ∧
      SameDirectories t t₂ ∧ (t.Distinct → t₂.Distinct) ∧
        ∀ m, t₂.node? m = if m = l then some (.file bytes executable) else t.node? m := by
  obtain ⟨l, executable, hl, hroot, hold, rfl⟩ := create_eq_ok hc
  have hdir : SameDirectories t (t.put l (.file ByteArray.empty executable)) :=
    SameDirectories.put hroot hold (by simp)
  obtain ⟨l', content, executable', hl', hnode, rfl⟩ := append_eq_ok ha
  obtain rfl : l' = l := Except.ok.inj (hl'.symm.trans (hdir.locate_eq hl))
  rw [node?_put hroot, if_pos rfl] at hnode
  obtain ⟨rfl, rfl⟩ : ByteArray.empty = content ∧ executable = executable' := by simpa using hnode
  rw [ByteArray.empty_append]
  refine ⟨l', executable, hl, hroot, hdir.trans (SameDirectories.put hroot ?_ (by simp)),
    fun h => h.put.put, ?_⟩
  · rw [node?_put hroot, if_pos rfl]
    simp
  · intro m
    rw [node?_put hroot, node?_put hroot]
    split <;> rfl

/-- An empty new file that takes some bytes and is then moved has replaced what stood at its
goal. -/
theorem replaced_of_rename {t₁ t₂ : FileTree} {temporary path : String}
    (hc : t.create cwd temporary = .ok t₁) (ha : t₁.append cwd temporary bytes = .ok t₂)
    (hr : t₂.rename cwd temporary path = .ok t') :
    ∃ origin goal, t.locate cwd temporary = .ok origin ∧ t.locate cwd path = .ok goal ∧
      Path.wantsDirectory path = false ∧ Replaced t t' origin goal bytes := by
  obtain ⟨origin, executable, hl, hroot, hdir, hdistinct, hnode⟩ := node?_of_append hc ha
  obtain ⟨node, origin', goal, hfind, horigin, hgoal, hfile, hwants, hcase⟩ := rename_eq_ok hr
  obtain rfl : origin' = origin := Except.ok.inj (horigin.symm.trans (hdir.locate_eq hl))
  have hmoved : t₂.node? origin' = some (.file bytes executable) := by rw [hnode, if_pos rfl]
  obtain rfl : node = .file bytes executable := by
    obtain ⟨l, hl, hat, -⟩ := find_eq_ok hfind
    obtain rfl : l = origin' := Except.ok.inj (hl.symm.trans horigin)
    exact Option.some.inj (hat.symm.trans hmoved)
  have hgoalroot : goal ≠ [] := by
    rintro rfl
    exact hfile rfl
  refine ⟨origin', goal, hl, hdir.symm.locate_eq hgoal, hwants, ?_⟩
  rcases hcase with ⟨rfl, rfl⟩ | ⟨hne, rfl⟩
  · refine ⟨hdir, hdistinct, ⟨executable, hmoved⟩, fun h => absurd rfl h, ?_⟩
    intro l hl _
    rw [hnode, if_neg hl]
  · have herase : (t₂.erase origin').node? goal ≠ some .directory := by
      rw [node?_erase hroot, if_neg (Ne.symm hne)]
      exact hfile
    refine ⟨?_, fun h => (hdistinct h).erase.put,
      ⟨executable, by rw [node?_put hgoalroot, if_pos rfl]⟩, ?_, ?_⟩
    · refine hdir.trans (SameDirectories.trans (SameDirectories.erase hroot ?_)
        (SameDirectories.put hgoalroot herase (by simp)))
      rw [hmoved]
      simp
    · intro _
      rw [node?_put hgoalroot, if_neg hne, node?_erase hroot, if_pos rfl]
    · intro l hl hlo
      rw [node?_put hgoalroot, if_neg hl, node?_erase hroot, if_neg hlo, hnode, if_neg hlo]

theorem walk_cons_of_directory {here : Location} {first : String} {rest : List String}
    (hfirst : first ≠ "..") (hrest : rest ≠ []) (hshort : ¬ nameLimit < first.utf8ByteSize)
    (hdir : t.node? (here ++ [first]) = some .directory) :
    t.walk here (first :: rest) = t.walk (here ++ [first]) rest := by
  rw [walk.eq_4 t here first rest hfirst hrest, if_neg hshort, hdir]

theorem walk_append_name {here l : Location} {names : List String} {name : String}
    (hw : t.walk here names = .ok l) (hdir : t.node? l = some .directory) :
    t.walk here (names ++ [name]) = t.walk l [name] := by
  induction here, names using walk.induct t with
  | case1 here =>
    cases hw
    rfl
  | case2 here rest ih => exact ih hw
  | case3 here first hne hlong => simp [walk, hlong] at hw
  | case4 here first hne hshort =>
    obtain rfl : here ++ [first] = l := by simpa [walk, hshort] using hw
    exact walk_cons_of_directory hne (by simp) hshort hdir
  | case5 here first rest hne hrest hlong => simp [walk, hlong] at hw
  | case6 here first rest hne hrest hshort hfirst ih =>
    simp only [walk, hshort, hfirst] at hw
    rw [List.cons_append, walk_cons_of_directory hne (by simp) hshort hfirst]
    exact ih (by simpa using hw)
  | case7 here first rest hne hrest hshort content executable hfile =>
    simp [walk, hshort, hfile] at hw
  | case8 here first rest hne hrest hshort hnone => simp [walk, hshort, hnone] at hw

theorem isDirectory_of_find {path : String} (h : t.find cwd path = .ok .directory) :
    t.isDirectory cwd path = true := by
  rw [isDirectory, h]

theorem makeDirectories_of_find {path : String} (h : t.find cwd path = .ok .directory) :
    t.makeDirectories cwd path = (t, .ok ()) := by
  obtain ⟨l, hl, hnode, -⟩ := find_eq_ok h
  have hmake : t.makeDirectory cwd path = .error (.system SystemError.entryExists) := by
    simp [makeDirectory, hl, hnode, bind, Except.bind]
  rw [makeDirectories, makeDirectoriesWithin]
  split
  · rfl
  · simp [hmake, isDirectory_of_find h, SystemError.entryExists, SystemError.noSuchEntry]

end FileTree

/-- The files of a host form a tree, and operations that succeed act on it as those of the tree do.
What a failed operation leaves, and the order in which a directory is listed, stay open. -/
structure Host.HasFiles {σ : Type} (host : Host σ) (tree : σ → FileTree)
    (cwd : σ → Location) : Prop where
  readText : ∀ {path s text}, host.readText path s = .ok text ↔
    (tree s).readText (cwd s) path = .ok text
  list : ∀ {path s names}, (tree s).list (cwd s) path = .ok names →
    ∃ listed, host.list path s = .ok listed ∧ listed.Perm names
  makeDirectories : ∀ {path s s'}, host.makeDirectories path s = (.ok (), s') →
    (tree s).makeDirectories (cwd s) path = (tree s', .ok ()) ∧ cwd s' = cwd s
  create : ∀ {path s s'}, host.create path s = (.ok (), s') →
    (tree s).create (cwd s) path = .ok (tree s') ∧ cwd s' = cwd s
  write : ∀ {path bytes s s'}, host.write path bytes s = (.ok (), s') →
    (tree s).append (cwd s) path bytes = .ok (tree s') ∧ cwd s' = cwd s
  sync : ∀ {path s s'}, host.sync path s = (.ok (), s') → tree s' = tree s ∧ cwd s' = cwd s
  rename : ∀ {source target s s'}, host.rename source target s = (.ok (), s') →
    (tree s).rename (cwd s) source target = .ok (tree s') ∧ cwd s' = cwd s
  say : ∀ line s, tree (host.say line s) = tree s ∧ cwd (host.say line s) = cwd s

namespace Machine

theorem updated_eq_ok {m m' : Machine} {step : Except IoError FileTree}
    (h : m.updated step = (.ok (), m')) :
    step = .ok m'.tree ∧ m'.cwd = m.cwd := by
  unfold updated at h
  cases step with
  | error e => cases h
  | ok t =>
    cases h
    exact ⟨rfl, rfl⟩

theorem hasFiles_host : host.HasFiles Machine.tree Machine.cwd where
  readText := Iff.rfl
  list h := ⟨_, h, .refl _⟩
  makeDirectories {path s s'} h := by
    have hr : (s.tree.makeDirectories s.cwd path).2 = .ok () := congrArg Prod.fst h
    have hs : { s with tree := (s.tree.makeDirectories s.cwd path).1 } = s' := congrArg Prod.snd h
    subst hs
    exact ⟨Prod.ext rfl hr, rfl⟩
  create h := updated_eq_ok h
  write h := updated_eq_ok h
  sync h := by
    cases congrArg Prod.snd h
    exact ⟨rfl, rfl⟩
  rename h := updated_eq_ok h
  say _ _ := ⟨rfl, rfl⟩

end Machine

variable {σ : Type}

theorem Disk.andThen_eq_ok {α : Type} {step : Except IoError Unit × σ}
    {next : σ → Except IoError α × σ} {a : α} {s' : σ} (h : Disk.andThen step next = (.ok a, s')) :
    ∃ s, step = (.ok (), s) ∧ next s = (.ok a, s') := by
  unfold Disk.andThen at h
  split at h
  · cases h
  · exact ⟨_, rfl, h⟩

namespace Host.HasFiles

variable {host : Host σ} {tree : σ → FileTree} {cwd : σ → Location}

theorem replaceFile_eq_ok (hf : host.HasFiles tree cwd) {temporary path text : String} {s s' : σ}
    (h : host.replaceFile temporary path text s = (.ok (), s')) :
    ∃ origin goal, (tree s).locate (cwd s) temporary = .ok origin ∧
      (tree s).locate (cwd s) path = .ok goal ∧ Path.wantsDirectory path = false ∧
      FileTree.Replaced (tree s) (tree s') origin goal text.toUTF8 ∧ cwd s' = cwd s := by
  obtain ⟨s₁, hcreate, h⟩ := Disk.andThen_eq_ok h
  obtain ⟨s₂, hwrite, h⟩ := Disk.andThen_eq_ok h
  obtain ⟨s₃, hsync, hrename⟩ := Disk.andThen_eq_ok h
  obtain ⟨hc, hcwd₁⟩ := hf.create hcreate
  obtain ⟨ha, hcwd₂⟩ := hf.write hwrite
  obtain ⟨ht₃, hcwd₃⟩ := hf.sync hsync
  obtain ⟨hr, hcwd⟩ := hf.rename hrename
  rw [hcwd₁] at ha hcwd₂
  rw [hcwd₂] at hcwd₃
  rw [ht₃, hcwd₃] at hr
  rw [hcwd₃] at hcwd
  obtain ⟨origin, goal, horigin, hgoal, hwants, hrep⟩ := FileTree.replaced_of_rename hc ha hr
  exact ⟨origin, goal, horigin, hgoal, hwants, hrep, hcwd⟩

end Host.HasFiles

end NoiseTimeline
