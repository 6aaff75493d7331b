import Mathlib.Data.List.Nodup
import NoiseTimeline.Store.FileTree

/-! Entries of a file tree by location. An operation that succeeds changes the
entries it is about and keeps all directories, so paths lead where they did. -/

namespace NoiseTimeline.FileTree

variable {t t' : FileTree} {l l' : Location} {n : FileNode}

theorem lookup_cons_if (k l : Location) (m : FileNode) (entries : List (Location × FileNode)) :
    ((k, m) :: entries).lookup l = if l = k then some m else entries.lookup l := by
  rw [List.lookup_cons]
  split
  · rename_i h
    rw [if_pos (by simpa using h)]
  · rename_i h
    rw [if_neg (by simpa using h)]

theorem lookup_map_set (entries : List (Location × FileNode)) (l l' : Location) (n : FileNode) :
    (entries.map fun e => if e.1 = l then (l, n) else e).lookup l' =
      if l' = l then (entries.lookup l).map fun _ => n else entries.lookup l' := by
  induction entries with
  | nil => simp
  | cons e entries ih =>
    obtain ⟨k, m⟩ := e
    rw [List.map_cons, lookup_cons_if, lookup_cons_if]
    by_cases hk : k = l
    · rw [if_pos hk, lookup_cons_if, ih]
      subst hk
      split <;> simp
    · rw [if_neg hk, lookup_cons_if, ih]
      by_cases hl : l' = l
      · subst hl
        simp [Ne.symm hk]
      · simp [hl]

theorem lookup_filter_ne (entries : List (Location × FileNode)) (l l' : Location) :
    (entries.filter fun e => e.1 ≠ l).lookup l' = if l' = l then none else entries.lookup l' := by
  induction entries with
  | nil => simp
  | cons e entries ih =>
    obtain ⟨k, m⟩ := e
    by_cases hk : k = l
    · rw [List.filter_cons_of_neg (by simpa using hk), lookup_cons_if, ih]
      subst hk
      split <;> rfl
    · rw [List.filter_cons_of_pos (by simpa using hk), lookup_cons_if, lookup_cons_if, ih]
      by_cases hl : l' = l
      · subst hl
        simp [Ne.symm hk]
      · simp [hl]

theorem lookup_eq_none_iff {entries : List (Location × FileNode)} :
    entries.lookup l = none ↔ ∀ e ∈ entries, e.1 ≠ l := by
  induction entries with
  | nil => simp
  | cons e entries ih =>
    obtain ⟨k, m⟩ := e
    rw [lookup_cons_if]
    by_cases hk : l = k
    · simp [hk]
    · simp [hk, ih, Ne.symm hk]

theorem any_key_iff {entries : List (Location × FileNode)} :
    (entries.any fun e => e.1 = l) = true ↔ entries.lookup l ≠ none := by
  rw [Ne, lookup_eq_none_iff]
  simp

theorem node?_put (hl : l ≠ []) : (t.put l n).node? l' = if l' = l then some n else t.node? l' := by
  by_cases hl' : l' = []
  · simp [node?, hl', hl.symm]
  · rw [node?, node?, if_neg hl', if_neg hl', put]
    split
    · rename_i hany
      rw [any_key_iff] at hany
      obtain ⟨m, hm⟩ := Option.ne_none_iff_exists'.mp hany
      rw [lookup_map_set, hm]
      rfl
    · rename_i hany
      rw [any_key_iff, not_not] at hany
      rw [List.lookup_append, lookup_cons_if]
      split
      · rename_i heq
        rw [heq, hany]
        rfl
      · simp

theorem node?_erase (hl : l ≠ []) : (t.erase l).node? l' = if l' = l then none else t.node? l' := by
  by_cases hl' : l' = []
  · simp [node?, hl', hl.symm]
  · rw [node?, node?, if_neg hl', if_neg hl', erase, lookup_filter_ne]

theorem isPrefixOf_and_length_iff {dir key : Location} {name : String} :
    (key.length = dir.length + 1 ∧ dir.isPrefixOf key) ∧ key.getLast? = some name ↔
    key = dir ++ [name] := by
  constructor
  · rintro ⟨⟨hlen, hpre⟩, hlast⟩
    rw [List.isPrefixOf_iff_prefix] at hpre
    obtain ⟨rest, rfl⟩ := hpre
    rw [List.length_append, Nat.add_left_cancel_iff] at hlen
    obtain ⟨x, rfl⟩ := List.length_eq_one_iff.mp hlen
    rw [List.getLast?_concat, Option.some.injEq] at hlast
    rw [hlast]
  · rintro rfl
    simp

def nameBelow? (dir key : Location) : Option String :=
  if key.length = dir.length + 1 ∧ dir.isPrefixOf key then key.getLast? else none

theorem nameBelow?_eq_some {dir key : Location} {name : String} :
    nameBelow? dir key = some name ↔ key = dir ++ [name] := by
  rw [← isPrefixOf_and_length_iff, nameBelow?]
  split
  · rename_i h
    exact ⟨fun hlast => ⟨h, hlast⟩, fun hlast => hlast.2⟩
  · rename_i h
    exact ⟨fun hlast => (nomatch hlast), fun hlast => absurd hlast.1 h⟩

theorem names_eq (t : FileTree) (dir : Location) :
    t.names dir = (t.entries.map Prod.fst).filterMap (nameBelow? dir) := by
  rw [List.filterMap_map]
  rfl

theorem mem_names {dir : Location} {name : String} :
    name ∈ t.names dir ↔ (t.node? (dir ++ [name])).isSome = true := by
  have hkey : name ∈ t.names dir ↔ ∃ e ∈ t.entries, e.1 = dir ++ [name] := by
    simp only [names_eq, List.mem_filterMap, nameBelow?_eq_some, List.mem_map,
      exists_exists_and_eq_and]
  rw [hkey, node?, if_neg (by simp), ← not_iff_not, Option.not_isSome_iff_eq_none,
    lookup_eq_none_iff]
  push Not
  rfl

/-- No two entries stand at one location. -/
def Distinct (t : FileTree) : Prop := (t.entries.map Prod.fst).Nodup

theorem Distinct.nodup_names (h : t.Distinct) (dir : Location) : (t.names dir).Nodup := by
  rw [names_eq]
  apply List.Nodup.filterMap _ h
  intro key key' name hk hk'
  rw [nameBelow?_eq_some.mp hk, nameBelow?_eq_some.mp hk']

theorem Distinct.put (h : t.Distinct) : (t.put l n).Distinct := by
  unfold Distinct FileTree.put
  split
  · have hkeys : (t.entries.map fun e => if e.1 = l then (l, n) else e).map Prod.fst =
        t.entries.map Prod.fst := by
      rw [List.map_map]
      apply List.map_congr_left
      intro e _
      by_cases he : e.1 = l <;> simp [he]
    rw [hkeys]
    exact h
  · rename_i hany
    rw [any_key_iff, not_not, lookup_eq_none_iff] at hany
    rw [List.map_append, List.nodup_append]
    refine ⟨h, by simp, ?_⟩
    intro k hk k' hk'
    obtain ⟨e, he, rfl⟩ := List.mem_map.mp hk
    obtain rfl : k' = l := by simpa using hk'
    exact hany e he

theorem Distinct.erase (h : t.Distinct) : (t.erase l).Distinct :=
  List.Nodup.sublist (List.filter_sublist.map Prod.fst) h

def SameDirectories (t t' : FileTree) : Prop :=
  ∀ l, t.node? l = some .directory ↔ t'.node? l = some .directory

theorem SameDirectories.refl (t : FileTree) : SameDirectories t t := fun _ => Iff.rfl

theorem SameDirectories.symm (h : SameDirectories t t') : SameDirectories t' t :=
  fun l => (h l).symm

theorem SameDirectories.trans {t'' : FileTree} (h : SameDirectories t t')
    (h' : SameDirectories t' t'') :
    SameDirectories t t'' := fun l => (h l).trans (h' l)

theorem SameDirectories.put (hl : l ≠ []) (hold : t.node? l ≠ some .directory)
    (hnew : n ≠ .directory) :
    SameDirectories t (t.put l n) := by
  intro l'
  rw [node?_put hl]
  split
  · rename_i heq
    rw [heq]
    exact ⟨fun h => absurd h hold, fun h => absurd (Option.some.inj h) hnew⟩
  · exact Iff.rfl

theorem SameDirectories.erase (hl : l ≠ []) (hold : t.node? l ≠ some .directory) :
    SameDirectories t (t.erase l) := by
  intro l'
  rw [node?_erase hl]
  split
  · rename_i heq
    rw [heq]
    exact ⟨fun h => absurd h hold, fun h => nomatch h⟩
  · exact Iff.rfl

/-- No directory is gone. -/
def KeepsDirectories (t t' : FileTree) : Prop :=
  ∀ l, t.node? l = some .directory → t'.node? l = some .directory

theorem KeepsDirectories.trans {t'' : FileTree} (h : KeepsDirectories t t')
    (h' : KeepsDirectories t' t'') :
    KeepsDirectories t t'' := fun l hl => h' l (h l hl)

theorem SameDirectories.keeps (h : SameDirectories t t') : KeepsDirectories t t' :=
  fun l => (h l).mp

theorem KeepsDirectories.walk_eq (h : KeepsDirectories t t') {here : Location} {names : List String}
    (hw : t.walk here names = .ok l) : t'.walk here names = .ok l := by
  induction here, names using walk.induct t with
  | case1 here => exact hw
  | case2 here rest ih => exact ih hw
  | case3 here name hne hlong => simp [walk, hlong] at hw
  | case4 here name hne hshort => simpa [walk, hshort] using hw
  | case5 here name rest hne hrest hlong => simp [walk, hlong] at hw
  | case6 here name rest hne hrest hshort hdir ih =>
    simp only [walk, hshort, hdir] at hw ⊢
    simp only [h _ hdir]
    exact ih hw
  | case7 here name rest hne hrest hshort content executable hfile =>
    simp [walk, hshort, hfile] at hw
  | case8 here name rest hne hrest hshort hnone => simp [walk, hshort, hnone] at hw

theorem KeepsDirectories.locate_eq (h : KeepsDirectories t t') {cwd : Location} {path : String}
    (hl : t.locate cwd path = .ok l) : t'.locate cwd path = .ok l := by
  unfold locate at hl ⊢
  split at hl
  · cases hl
  · rename_i hne
    split at hl
    · cases hl
    · rename_i hnul
      rw [if_neg hne, if_neg hnul]
      exact h.walk_eq hl

theorem SameDirectories.locate_eq (h : SameDirectories t t') {cwd : Location} {path : String}
    (hl : t.locate cwd path = .ok l) : t'.locate cwd path = .ok l :=
  h.keeps.locate_eq hl

variable {cwd : Location} {path : String}

theorem bind_eq_ok {ε α β : Type} {x : Except ε α} {f : α → Except ε β} {b : β}
    (h : x >>= f = .ok b) :
    ∃ a, x = .ok a ∧ f a = .ok b := by
  cases x with
  | error e => cases h
  | ok a => exact ⟨a, rfl, h⟩

theorem find_eq_ok (h : t.find cwd path = .ok n) :
    ∃ l, t.locate cwd path = .ok l ∧ t.node? l = some n ∧
    (n ≠ .directory → Path.wantsDirectory path = false) := by
  unfold find at h
  obtain ⟨l, hl, h⟩ := bind_eq_ok h
  split at h
  · cases h
  · rename_i hnode
    cases h
    exact ⟨l, hl, hnode, fun hne => absurd rfl hne⟩
  · rename_i hnode
    split at h
    · cases h
    · rename_i hwants
      cases h
      exact ⟨l, hl, hnode, fun _ => by simpa using hwants⟩

theorem find_of_directory (hl : t.locate cwd path = .ok l) (hnode : t.node? l = some .directory) :
    t.find cwd path = .ok .directory := by
  simp [find, hl, hnode, bind, Except.bind]

theorem list_of_directory (hl : t.locate cwd path = .ok l) (hnode : t.node? l = some .directory) :
    t.list cwd path = .ok (t.names l) := by
  simp [list, find_of_directory hl hnode, hl, bind, Except.bind]

theorem list_eq_ok {names : List String} (h : t.list cwd path = .ok names) :
    ∃ l, t.locate cwd path = .ok l ∧ t.node? l = some .directory ∧ names = t.names l := by
  unfold list at h
  obtain ⟨n, hfind, h⟩ := bind_eq_ok h
  obtain ⟨l, hl, hnode, -⟩ := find_eq_ok hfind
  cases n with
  | file content executable => cases h
  | directory =>
    rw [hl] at h
    exact ⟨l, hl, hnode, (Except.ok.inj h).symm⟩

theorem find_of_file {content : ByteArray} {executable : Bool} (hl : t.locate cwd path = .ok l)
    (hnode : t.node? l = some (.file content executable))
    (hwants : Path.wantsDirectory path = false) :
    t.find cwd path = .ok (.file content executable) := by
  simp [find, hl, hnode, hwants, bind, Except.bind]

theorem read_eq_of_file {content : ByteArray} {executable : Bool} (hl : t.locate cwd path = .ok l)
    (hnode : t.node? l = some (.file content executable))
    (hwants : Path.wantsDirectory path = false) :
    t.read cwd path = .ok content := by
  simp [read, find_of_file hl hnode hwants, bind, Except.bind]

/-- The root is a directory, so what is created does not stand there. -/
theorem create_eq_ok (h : t.create cwd path = .ok t') :
    ∃ l executable, t.locate cwd path = .ok l ∧ l ≠ [] ∧ t.node? l ≠ some .directory ∧
      t' = t.put l (.file ByteArray.empty executable) := by
  unfold create at h
  obtain ⟨l, hl, h⟩ := bind_eq_ok h
  have hroot : l = [] → t.node? l = some .directory := by
    rintro rfl
    rfl
  split at h
  · cases h
  · rename_i content executable hnode
    split at h
    · cases h
    · cases h
      exact ⟨l, executable, hl, fun h0 => by simp [hroot h0] at hnode, by simp [hnode], rfl⟩
  · rename_i hnode
    split at h
    · cases h
    · split at h
      · cases h
        exact ⟨l, false, hl, fun h0 => by simp [hroot h0] at hnode, by simp [hnode], rfl⟩
      · cases h

theorem append_eq_ok {bytes : ByteArray} (h : t.append cwd path bytes = .ok t') :
    ∃ l content executable, t.locate cwd path = .ok l ∧
      t.node? l = some (.file content executable) ∧
      t' = t.put l (.file (content ++ bytes) executable) := by
  unfold append at h
  obtain ⟨l, hl, h⟩ := bind_eq_ok h
  split at h
  · rename_i content executable hnode
    cases h
    exact ⟨l, content, executable, hl, hnode, rfl⟩
  · cases h
  · cases h

theorem rename_eq_ok {source target : String} (h : t.rename cwd source target = .ok t') :
    ∃ node origin goal, t.find cwd source = .ok node ∧ t.locate cwd source = .ok origin ∧
      t.locate cwd target = .ok goal ∧ t.node? goal ≠ some .directory ∧
      Path.wantsDirectory target = false ∧
      (origin = goal ∧ t' = t ∨ origin ≠ goal ∧ t' = (t.erase origin).put goal node) := by
  unfold rename at h
  obtain ⟨node, hfind, h⟩ := bind_eq_ok h
  obtain ⟨origin, horigin, h⟩ := bind_eq_ok h
  obtain ⟨goal, hgoal, h⟩ := bind_eq_ok h
  refine ⟨node, origin, goal, hfind, horigin, hgoal, ?_⟩
  split at h
  · cases h
  · rename_i hold
    split at h
    · cases h
    · rename_i hwants
      refine ⟨by simp [hold], by simpa using hwants, ?_⟩
      split at h
      · rename_i hsame
        cases h
        exact Or.inl ⟨hsame, rfl⟩
      · rename_i hother
        cases h
        exact Or.inr ⟨hother, rfl⟩
  · rename_i hold
    split at h
    · cases h
    · rename_i hwants
      refine ⟨by simp [hold], by simpa using hwants, ?_⟩
      split at h
      · cases h
        refine Or.inr ⟨?_, rfl⟩
        rintro rfl
        obtain ⟨l, hl, hnode, -⟩ := find_eq_ok hfind
        obtain rfl : l = origin := Except.ok.inj (hl.symm.trans horigin)
        rw [hold] at hnode
        cases hnode
      · cases h

end NoiseTimeline.FileTree
