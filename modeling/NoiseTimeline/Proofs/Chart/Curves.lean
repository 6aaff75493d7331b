import NoiseTimeline.Proofs.Chart.Catalog
import NoiseTimeline.Proofs.Store.Written

/-! The curves in a directory, told by its files. They are the same in every tree that has the same
timelines there. -/

namespace NoiseTimeline.Catalog

variable {σ : Type} {host : Host σ} {tree : σ → FileTree} {cwd : σ → Location} {s s' : σ}
  {dir : String} {t t' : FileTree} {here l : Location} {p : NoiseProperty} {e : Nat × String}

/-- The names of timelines in a directory. -/
def csvNames (t : FileTree) (here : Location) (dir : String) : List String :=
  match t.list here dir with
  | .ok names => sorted (names.filter isCsvName)
  | .error _ => []

/-- The curves of one kind of noise in a directory. -/
def curves (t : FileTree) (here : Location) (dir : String) (p : NoiseProperty) : List Series :=
  (namesByThreshold p (csvNames t here dir)).filterMap (seriesAt t here dir)

theorem loadPlots_state (hf : host.HasFiles tree cwd) (dir : String)
    (groups : List (NoiseProperty × List (Nat × String)))
    (s : σ) : tree (loadPlots host dir groups s).2 = tree s ∧
    cwd (loadPlots host dir groups s).2 = cwd s := by
  induction groups generalizing s with
  | nil => exact ⟨rfl, rfl⟩
  | cons g groups ih =>
    obtain ⟨-, htree, hcwd⟩ := loadAll_eq hf dir g.2 s
    obtain ⟨htree', hcwd'⟩ := ih (loadAll host dir g.2 s).2
    exact ⟨htree'.trans htree, hcwd'.trans hcwd⟩

theorem scan_state (hf : host.HasFiles tree cwd) (dir : String) (s : σ) :
    tree (scan host dir s).2 = tree s ∧ cwd (scan host dir s).2 = cwd s := by
  unfold scan
  cases host.list dir s with
  | error e => exact ⟨rfl, rfl⟩
  | ok listed =>
    dsimp only
    obtain ⟨htree, hcwd⟩ := foldl_event hf (groupingRemarks (sorted (listed.filter isCsvName))) s
    obtain ⟨htree', hcwd'⟩ :=
      loadPlots_state hf dir (groupByThreshold (sorted (listed.filter isCsvName)))
        ((groupingRemarks (sorted (listed.filter isCsvName))).foldl
          (fun s remark => host.event .debug remark s) s)
    exact ⟨htree'.trans htree, hcwd'.trans hcwd⟩

theorem scan_curves (hf : host.Browses tree cwd) {catalog : Catalog}
    (h : scan host dir s = (.ok catalog, s')) :
    catalog = ⟨(Path.fileName? dir).getD "",
      NoiseProperty.all.map fun p => (p, curves (tree s) (cwd s) dir p)⟩ ∧
      tree s' = tree s ∧ cwd s' = cwd s := by
  have hstate := scan_state hf.toHasFiles dir s
  rw [h] at hstate
  refine ⟨?_, hstate⟩
  cases hlist : host.list dir s with
  | error e =>
    rw [scan, hlist] at h
    cases h
  | ok listed =>
    obtain ⟨names, hnames⟩ := hf.listed hlist
    obtain ⟨listed', hlisted', hperm⟩ := hf.list hnames
    obtain rfl : listed' = listed := Except.ok.inj (hlisted'.symm.trans hlist)
    have hfiles : sorted (listed'.filter isCsvName) = csvNames (tree s) (cwd s) dir := by
      rw [csvNames, hnames]
      exact sorted_eq_of_perm (hperm.filter _)
    obtain ⟨s'', hscan⟩ := scan_eq hf.toHasFiles hlist
    rw [hscan, hfiles] at h
    exact (Except.ok.inj (Prod.mk.inj h).1).symm

theorem toOption_readText {path : String} (hl : t.locate here path = .ok l)
    (hwants : Path.wantsDirectory path = false) :
    (t.readText here path).toOption = (t.fileAt? l).bind fun file => Text.decode? file.1 := by
  rw [FileTree.readText, FileTree.read, FileTree.find, FileTree.fileAt?, hl]
  cases hnode : t.node? l with
  | none => simp [bind, Except.bind, Except.toOption, hnode]
  | some n =>
    cases n with
    | directory => simp [bind, Except.bind, Except.toOption, hnode]
    | file content executable =>
      cases hdecode : Text.decode? content <;>
        simp [bind, Except.bind, Except.toOption, hnode, hwants, hdecode]

theorem seriesAt_eq (hl : t.locate here dir = .ok l) (hnode : t.node? l = some .directory)
    (hname : Path.IsName e.2) :
    seriesAt t here dir e = if FileTree.nameLimit < e.2.utf8ByteSize then none else
      ((t.fileAt? (l ++ [e.2])).bind fun file => Text.decode? file.1).bind fun text =>
        (TimelineCsv.parse text).toOption.map (Series.mk e.1 (Path.join dir e.2)) := by
  have hread : seriesAt t here dir e =
      (t.readText here (Path.join dir e.2)).toOption.bind fun text =>
        (TimelineCsv.parse text).toOption.map (Series.mk e.1 (Path.join dir e.2)) := by
    unfold seriesAt
    cases t.readText here (Path.join dir e.2) <;> rfl
  have hpath := FileTree.locate_join hl hnode hname
  rw [hread]
  split at hpath
  · rename_i hlong
    rw [FileTree.readText_of_locate_error hpath, if_pos hlong]
    rfl
  · rename_i hshort
    rw [toOption_readText hpath (Path.wantsDirectory_join hname), if_neg hshort]

theorem mem_csvNames (hl : t.locate here dir = .ok l) (hnode : t.node? l = some .directory)
    {name : String} :
    name ∈ csvNames t here dir ↔ (t.node? (l ++ [name])).isSome = true ∧ isCsvName name = true := by
  rw [csvNames, FileTree.list_of_directory hl hnode, mem_sorted, List.mem_filter,
    FileTree.mem_names]

theorem csvNames_ascending (ht : t.Named) : (csvNames t here dir).Pairwise fun x y => x < y := by
  rw [csvNames]
  split
  · rename_i names hlist
    obtain ⟨l, -, -, rfl⟩ := FileTree.list_eq_ok hlist
    exact sorted_ascending ((ht.distinct.nodup_names l).filter _)
  · exact .nil

theorem mem_entries_iff (ht : t.Named) (hl : t.locate here dir = .ok l)
    (hnode : t.node? l = some .directory) :
    (e ∈ namesByThreshold p (csvNames t here dir) ∧ (seriesAt t here dir e).isSome = true) ↔
      Path.IsName e.2 ∧ isCsvName e.2 = true ∧ p.isMentionedIn e.2 = true ∧
        threshold? e.2 = some e.1 ∧ (seriesAt t here dir e).isSome = true := by
  rw [mem_namesByThreshold, mem_csvNames hl hnode]
  constructor
  · rintro ⟨⟨⟨hlisted, hcsv⟩, hmentioned, hthreshold⟩, hseries⟩
    exact ⟨ht.isName hlisted, hcsv, hmentioned, hthreshold, hseries⟩
  · rintro ⟨hname, hcsv, hmentioned, hthreshold, hseries⟩
    refine ⟨⟨⟨?_, hcsv⟩, hmentioned, hthreshold⟩, hseries⟩
    rw [seriesAt_eq hl hnode hname] at hseries
    split at hseries
    · cases hseries
    · cases hfile : t.fileAt? (l ++ [e.2]) with
      | none =>
        rw [hfile] at hseries
        cases hseries
      | some file =>
        rw [FileTree.fileAt?_eq_some_iff.mp hfile]
        rfl

theorem filterMap_filter_isSome {α β : Type} (f : α → Option β) (as : List α) :
    (as.filter fun a => (f a).isSome).filterMap f = as.filterMap f := by
  rw [List.filterMap_filter]
  refine List.filterMap_congr fun a _ => ?_
  cases f a <;> rfl

/-- By threshold, and then by name. -/
def EntryBefore (e e' : Nat × String) : Prop := e.1 < e'.1 ∨ e.1 = e'.1 ∧ e.2 < e'.2

instance : Std.Irrefl EntryBefore where
  irrefl _ h := h.elim (Nat.lt_irrefl _) fun h => String.lt_irrefl _ h.2

instance : Std.Antisymm EntryBefore where
  antisymm e e' h h' := by
    rcases h with h | ⟨h, hlt⟩ <;> rcases h' with h' | ⟨h', hlt'⟩
    · exact absurd h' (Nat.lt_asymm h)
    · omega
    · omega
    · exact absurd hlt' (String.lt_asymm hlt)

theorem curves_congr (ht : t.Named) (ht' : t'.Named) (hl : t.locate here dir = .ok l)
    (hnode : t.node? l = some .directory) (hl' : t'.locate here dir = .ok l)
    (hnode' : t'.node? l = some .directory)
    (hsame : ∀ name, isCsvName name = true → t'.fileAt? (l ++ [name]) = t.fileAt? (l ++ [name])) :
    curves t' here dir p = curves t here dir p := by
  have hseries : ∀ e : Nat × String, Path.IsName e.2 → isCsvName e.2 = true →
      seriesAt t' here dir e = seriesAt t here dir e := by
    intro e hname hcsv
    rw [seriesAt_eq hl hnode hname, seriesAt_eq hl' hnode' hname, hsame e.2 hcsv]
  have hascending : ∀ t : FileTree, t.Named → ((namesByThreshold p (csvNames t here dir)).filter
      fun e => (seriesAt t here dir e).isSome).Pairwise EntryBefore :=
    fun t ht => (namesByThreshold_ascending (csvNames_ascending ht)).filter _
  have hmem : ∀ e, e ∈ (namesByThreshold p (csvNames t' here dir)).filter
      (fun e => (seriesAt t' here dir e).isSome) ↔
      e ∈ (namesByThreshold p (csvNames t here dir)).filter fun e =>
        (seriesAt t here dir e).isSome := by
    intro e
    rw [List.mem_filter, List.mem_filter, mem_entries_iff ht hl hnode,
      mem_entries_iff ht' hl' hnode']
    constructor
    · rintro ⟨hname, hcsv, hrest⟩
      rw [hseries e hname hcsv] at hrest
      exact ⟨hname, hcsv, hrest⟩
    · rintro ⟨hname, hcsv, hrest⟩
      rw [← hseries e hname hcsv] at hrest
      exact ⟨hname, hcsv, hrest⟩
  have hlists := (hascending t' ht').eq_of_mem_iff (hascending t ht) hmem
  rw [curves, curves, ← filterMap_filter_isSome,
    ← filterMap_filter_isSome (seriesAt t here dir), hlists]
  refine List.filterMap_congr fun e he => ?_
  obtain ⟨hname, hcsv, -⟩ := (mem_entries_iff ht hl hnode).mp (List.mem_filter.mp he)
  exact hseries e hname hcsv

end NoiseTimeline.Catalog
