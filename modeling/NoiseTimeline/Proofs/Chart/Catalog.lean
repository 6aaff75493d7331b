import NoiseTimeline.Proofs.Chart.Grouping
import NoiseTimeline.Proofs.Store.Room

/-! The curves that a scan finds in a directory. After results were stored there, they
are the last ones under each name, by threshold and then by name. -/

namespace NoiseTimeline

variable {σ : Type} {host : Host σ} {tree : σ → FileTree} {cwd : σ → Location} {s s' : σ}
  {dir : String}

namespace Catalog

/-- The curve under a name, if the file holds one. -/
def seriesAt (t : FileTree) (here : Location) (dir : String) (e : Nat × String) : Option Series :=
  match t.readText here (Path.join dir e.2) with
  | .ok text => (TimelineCsv.parse text).toOption.map (Series.mk e.1 (Path.join dir e.2))
  | .error _ => none

theorem loadSeries_eq (hf : host.HasFiles tree cwd) (dir : String) (e : Nat × String) (s : σ) :
    (loadSeries host dir e s).1 = seriesAt (tree s) (cwd s) dir e ∧
      tree (loadSeries host dir e s).2 = tree s ∧ cwd (loadSeries host dir e s).2 = cwd s := by
  have hsay := fun line => hf.say line s
  unfold loadSeries seriesAt
  dsimp only
  cases hread : (tree s).readText (cwd s) (Path.join dir e.2) with
  | error cause =>
    have hfail : ∃ cause', readTimeline host.toDisk (Path.join dir e.2) s = .error cause' := by
      rw [readTimeline]
      cases hhost : host.readText (Path.join dir e.2) s with
      | error cause' => exact ⟨_, rfl⟩
      | ok text =>
        rw [hf.readText, hread] at hhost
        cases hhost
    obtain ⟨cause', hfail⟩ := hfail
    rw [hfail]
    exact ⟨rfl, hsay _⟩
  | ok text =>
    rw [readTimeline, hf.readText.mpr hread]
    dsimp only
    cases TimelineCsv.parse text with
    | error fault => exact ⟨rfl, hsay _⟩
    | ok timeline => exact ⟨rfl, rfl, rfl⟩

theorem loadAll_eq (hf : host.HasFiles tree cwd) (dir : String) (es : List (Nat × String)) (s : σ) :
    (loadAll host dir es s).1 = es.filterMap (seriesAt (tree s) (cwd s) dir) ∧
      tree (loadAll host dir es s).2 = tree s ∧ cwd (loadAll host dir es s).2 = cwd s := by
  induction es generalizing s with
  | nil => exact ⟨rfl, rfl, rfl⟩
  | cons e es ih =>
    obtain ⟨hfirst, htree, hcwd⟩ := loadSeries_eq hf dir e s
    obtain ⟨hrest, htree', hcwd'⟩ := ih (loadSeries host dir e s).2
    rw [htree, hcwd] at hrest
    refine ⟨?_, htree'.trans htree, hcwd'.trans hcwd⟩
    rw [loadAll]
    dsimp only
    rw [hfirst, hrest, List.filterMap_cons]
    cases seriesAt (tree s) (cwd s) dir e <;> rfl

theorem loadPlots_eq (hf : host.HasFiles tree cwd) (dir : String)
    (groups : List (NoiseProperty × List (Nat × String))) (s : σ) :
    (loadPlots host dir groups s).1 = groups.map fun g =>
      (g.1, g.2.filterMap (seriesAt (tree s) (cwd s) dir)) := by
  induction groups generalizing s with
  | nil => rfl
  | cons g groups ih =>
    obtain ⟨p, es⟩ := g
    obtain ⟨hfirst, htree, hcwd⟩ := loadAll_eq hf dir es s
    have hrest := ih (loadAll host dir es s).2
    rw [htree, hcwd] at hrest
    rw [loadPlots]
    dsimp only
    rw [hfirst, hrest, List.map_cons]

theorem foldl_event (hf : host.HasFiles tree cwd) (remarks : List String) (s : σ) :
    tree (remarks.foldl (fun s remark => host.event .debug remark s) s) = tree s ∧
      cwd (remarks.foldl (fun s remark => host.event .debug remark s) s) = cwd s := by
  induction remarks generalizing s with
  | nil => exact ⟨rfl, rfl⟩
  | cons remark remarks ih =>
    obtain ⟨htree, hcwd⟩ := hf.say (.event .debug remark) s
    obtain ⟨htree', hcwd'⟩ := ih (host.event .debug remark s)
    exact ⟨htree'.trans htree, hcwd'.trans hcwd⟩

theorem scan_eq (hf : host.HasFiles tree cwd) {names : List String}
    (hlist : host.list dir s = .ok names) :
    ∃ s', scan host dir s = (.ok ⟨(Path.fileName? dir).getD "", NoiseProperty.all.map fun p =>
      (p, (namesByThreshold p (sorted (names.filter isCsvName))).filterMap
        (seriesAt (tree s) (cwd s) dir))⟩, s') := by
  unfold scan
  rw [hlist]
  dsimp only
  obtain ⟨htree, hcwd⟩ := foldl_event hf (groupingRemarks (sorted (names.filter isCsvName))) s
  have hplots := loadPlots_eq hf dir (groupByThreshold (sorted (names.filter isCsvName)))
    ((groupingRemarks (sorted (names.filter isCsvName))).foldl
      (fun s remark => host.event .debug remark s) s)
  rw [htree, hcwd] at hplots
  rw [hplots]
  exact ⟨_, rfl⟩

end Catalog

def Result.series (dir : String) (k : Result) : Series :=
  ⟨k.config.threshold, Path.join dir k.config.csvName, k.timeline⟩

def Result.Precedes (k k' : Result) : Prop :=
  k.config.threshold < k'.config.threshold ∨
    k.config.threshold = k'.config.threshold ∧ k.config.csvName < k'.config.csvName

namespace Catalog

/-- The name is no timeline's, or it has no threshold or kind of noise in it, or there is no
timeline to be read. -/
def Skips (host : Host σ) (dir : String) (s : σ) (name : String) : Prop :=
  isCsvName name = false ∨ threshold? name = none ∨
    (∀ p : NoiseProperty, p.isMentionedIn name = false) ∨
    ∀ t, readTimeline host.toDisk (Path.join dir name) s ≠ .ok t

theorem seriesAt_of_skips (hf : host.HasFiles tree cwd) {name : String} {p : NoiseProperty}
    {threshold : Nat} (hskips : Skips host dir s name) (hcsv : isCsvName name = true)
    (hthreshold : threshold? name = some threshold) (hp : p.isMentionedIn name = true) :
    seriesAt (tree s) (cwd s) dir (threshold, name) = none := by
  rcases hskips with hno | hno | hno | hno
  · rw [hcsv] at hno
    cases hno
  · rw [hthreshold] at hno
    cases hno
  · rw [hno p] at hp
    cases hp
  · unfold seriesAt
    dsimp only
    cases hread : (tree s).readText (cwd s) (Path.join dir name) with
    | error e => rfl
    | ok text =>
      dsimp only
      cases hparse : TimelineCsv.parse text with
      | error fault => rfl
      | ok t =>
        refine absurd ?_ (hno t)
        rw [readTimeline, hf.readText.mpr hread]
        dsimp only
        rw [hparse]
        rfl

/-- The last results under the names that mention a kind of noise. -/
def kept (ks : List Result) (files : List String) (p : NoiseProperty) : List Result :=
  (namesByThreshold p files).filterMap fun e => Artifacts.lastUnder ks e.2

theorem mem_kept {ks : List Result} {files : List String} {p : NoiseProperty} {k : Result}
    (hvalid : ∀ k ∈ ks, k.config.IsValid)
    (hfiles : ∀ k, Artifacts.lastUnder ks k.config.csvName = some k → k.config.csvName ∈ files) :
    k ∈ kept ks files p ↔ k.config.property = p ∧
    Artifacts.lastUnder ks k.config.csvName = some k := by
  unfold kept
  rw [List.mem_filterMap]
  constructor
  · rintro ⟨e, he, hlast⟩
    obtain ⟨-, hmentioned, -⟩ := mem_namesByThreshold.mp he
    have hname := (Artifacts.lastUnder_eq_some hlast).2
    rw [← hname, RunConfig.isMentionedIn_csvName] at hmentioned
    exact ⟨hmentioned.symm, hname ▸ hlast⟩
  · rintro ⟨rfl, hlast⟩
    have hthreshold :=
      RunConfig.threshold?_csvName (hvalid k (Artifacts.lastUnder_eq_some hlast).1).threshold
    have hmentioned : k.config.property.isMentionedIn k.config.csvName = true :=
      (RunConfig.isMentionedIn_csvName _).mpr rfl
    exact ⟨(k.config.threshold, k.config.csvName),
      mem_namesByThreshold.mpr ⟨hfiles k hlast, hmentioned, hthreshold⟩, hlast⟩

theorem kept_ascending {ks : List Result} {files : List String}
    (hvalid : ∀ k ∈ ks, k.config.IsValid) (hfiles : files.Pairwise fun x y => x < y)
    (p : NoiseProperty) : (kept ks files p).Pairwise Result.Precedes := by
  unfold kept
  rw [List.pairwise_filterMap]
  refine (namesByThreshold_ascending hfiles).imp_of_mem ?_
  intro e e' he he' hlt k hk k' hk'
  have hread : ∀ e ∈ namesByThreshold p files, ∀ k, Artifacts.lastUnder ks e.2 = some k →
      k.config.threshold = e.1 ∧ k.config.csvName = e.2 := by
    intro e he k hk
    obtain ⟨hmem, hname⟩ := Artifacts.lastUnder_eq_some hk
    obtain ⟨-, -, hthreshold⟩ := mem_namesByThreshold.mp he
    rw [← hname, RunConfig.threshold?_csvName (hvalid k hmem).threshold] at hthreshold
    exact ⟨Option.some.inj hthreshold, hname⟩
  obtain ⟨hthreshold, hname⟩ := hread e he k hk
  obtain ⟨hthreshold', hname'⟩ := hread e' he' k' hk'
  rw [Result.Precedes, hthreshold, hthreshold', hname, hname']
  exact hlt

section Directory

variable {l : Location} {ks : List Result} (hf : host.HasFiles tree cwd)
  (hl : (tree s).locate (cwd s) dir = .ok l) (hnode : (tree s).node? l = some .directory)
  (hks : ∀ k ∈ ks, k.config.IsValid ∧ ∀ x ∈ k.timeline, x.IsStorable)
    (hstored : Artifacts.AllStored host dir ks s s')

include hf hl hnode hstored

include hks in
theorem seriesAt_of_last {k : Result} {name : String} {threshold : Nat}
    (hlast : Artifacts.lastUnder ks name = some k) (hthreshold : threshold? name = some threshold) :
    seriesAt (tree s') (cwd s') dir (threshold, name) = some (k.series dir) := by
  obtain ⟨hcwd, hdirs, -, hshort, hcontent⟩ := Artifacts.node?_of_allStored hf hl hnode hstored
  obtain ⟨hmem, rfl⟩ := Artifacts.lastUnder_eq_some hlast
  obtain ⟨hvalid, hstorable⟩ := hks k hmem
  obtain ⟨executable, hfile⟩ := (hcontent _ k.config.isCsvName_csvName).1 k hlast
  rw [RunConfig.threshold?_csvName hvalid.threshold] at hthreshold
  obtain rfl := Option.some.inj hthreshold
  have hl' : (tree s').locate (cwd s') dir = .ok l := by
    rw [hcwd]
    exact hdirs.locate_eq hl
  have hpath : (tree s').locate (cwd s') (Path.join dir k.config.csvName) =
      .ok (l ++ [k.config.csvName]) := by
    rw [FileTree.locate_join hl' ((hdirs l).mp hnode) (Artifacts.isName_csvName k.config),
      if_neg (Nat.not_lt.mpr (hshort k hmem))]
  have hread := FileTree.readText_of_file hpath hfile
    (Path.wantsDirectory_join (Artifacts.isName_csvName k.config))
  unfold seriesAt
  dsimp only
  rw [hread]
  dsimp only
  rw [TimelineCsv.parse_write hstorable]
  rfl

theorem seriesAt_of_none (hwf : (tree s).WellFormed)
    (hskips : ∀ name ∈ (tree s).names l, Skips host dir s name) {name : String} {p : NoiseProperty}
    {threshold : Nat} (hnone : Artifacts.lastUnder ks name = none)
    (hname : name ∈ (tree s').names l) (hcsv : isCsvName name = true)
    (hthreshold : threshold? name = some threshold) (hp : p.isMentionedIn name = true) :
    seriesAt (tree s') (cwd s') dir (threshold, name) = none := by
  obtain ⟨hcwd, hdirs, -, -, hcontent⟩ := Artifacts.node?_of_allStored hf hl hnode hstored
  have hkept := (hcontent name hcsv).2 hnone
  rw [FileTree.mem_names, hkept] at hname
  have hbefore :=
    seriesAt_of_skips hf (hskips name (FileTree.mem_names.mpr hname)) hcsv hthreshold hp
  have hproper := hwf.isName hname
  have hl' : (tree s').locate (cwd s) dir = .ok l := hdirs.locate_eq hl
  have hpath := FileTree.locate_join hl hnode hproper
  have hpath' := FileTree.locate_join hl' ((hdirs l).mp hnode) hproper
  rw [hcwd]
  by_cases hlong : FileTree.nameLimit < name.utf8ByteSize
  · rw [if_pos hlong] at hpath'
    unfold seriesAt
    dsimp only
    rw [FileTree.readText_of_locate_error hpath']
  · rw [if_neg hlong] at hpath
    unfold seriesAt at hbefore ⊢
    rw [FileTree.readText_congr hdirs hpath hkept]
    exact hbefore

end Directory

/-- A scan of a directory in which results were stored gives, for each kind of noise, the last
result under each name, and nothing of what it passed over before. -/
theorem scan_finds_last_stored (hf : host.HasFiles tree cwd) (hwf : (tree s).WellFormed)
    (hdir : (tree s).find (cwd s) dir = .ok .directory)
    (hskips : ∀ names, (tree s).list (cwd s) dir = .ok names →
      ∀ name ∈ names, Skips host dir s name)
    {ks : List Result} (hks : ∀ k ∈ ks, k.config.IsValid ∧ ∀ x ∈ k.timeline, x.IsStorable)
    (hstored : Artifacts.AllStored host dir ks s s') :
    (∃ (kept : NoiseProperty → List Result) (s'' : σ),
      scan host dir s' = (.ok ⟨(Path.fileName? dir).getD "",
        NoiseProperty.all.map fun p => (p, (kept p).map (Result.series dir))⟩, s'') ∧
      ∀ p, (kept p).Pairwise Result.Precedes ∧
        ∀ k, k ∈ kept p ↔
          k.config.property = p ∧ Artifacts.lastUnder ks k.config.csvName = some k) ∧
    ∀ c : RunConfig, c.IsValid → threshold? c.csvName = some c.threshold := by
  refine ⟨?_, fun c hc => RunConfig.threshold?_csvName hc.threshold⟩
  obtain ⟨l, hl, hnode⟩ := FileTree.locate_of_find hdir
  obtain ⟨hcwd, hdirs, hdistinct, -, hcontent⟩ := Artifacts.node?_of_allStored hf hl hnode hstored
  have hskips := hskips _ (FileTree.list_of_directory hl hnode)
  have hl' : (tree s').locate (cwd s') dir = .ok l := by
    rw [hcwd]
    exact hdirs.locate_eq hl
  obtain ⟨listed, hlisted, hperm⟩ := hf.list (FileTree.list_of_directory hl' ((hdirs l).mp hnode))
  obtain ⟨s'', hscan⟩ := scan_eq hf hlisted
  have hnd : (listed.filter isCsvName).Nodup :=
    (hperm.nodup_iff.mpr ((hdistinct hwf.distinct).nodup_names l)).filter _
  have hfiles : ∀ name, name ∈ sorted (listed.filter isCsvName) ↔
      name ∈ (tree s').names l ∧ isCsvName name = true := by
    intro name
    rw [mem_sorted, List.mem_filter, hperm.mem_iff]
  have hvalid : ∀ k ∈ ks, k.config.IsValid := fun k hk => (hks k hk).1
  have hpresent : ∀ k, Artifacts.lastUnder ks k.config.csvName = some k →
      k.config.csvName ∈ sorted (listed.filter isCsvName) := by
    intro k hlast
    obtain ⟨executable, hfile⟩ := (hcontent _ k.config.isCsvName_csvName).1 k hlast
    rw [hfiles, FileTree.mem_names, hfile]
    exact ⟨rfl, k.config.isCsvName_csvName⟩
  have hseries : ∀ p, (namesByThreshold p (sorted (listed.filter isCsvName))).filterMap
      (seriesAt (tree s') (cwd s') dir) =
      (kept ks (sorted (listed.filter isCsvName)) p).map (Result.series dir) := by
    intro p
    unfold kept
    rw [List.map_filterMap]
    apply List.filterMap_congr
    intro e he
    obtain ⟨hmem, hmentioned, hthreshold⟩ := mem_namesByThreshold.mp he
    obtain ⟨hname, hcsv⟩ := (hfiles e.2).mp hmem
    cases hlast : Artifacts.lastUnder ks e.2 with
    | none =>
      exact seriesAt_of_none hf hl hnode hstored hwf hskips hlast hname hcsv hthreshold hmentioned
    | some k => exact seriesAt_of_last hf hl hnode hks hstored hlast hthreshold
  refine ⟨kept ks (sorted (listed.filter isCsvName)), s'', ?_,
    fun p => ⟨?_, fun k => mem_kept hvalid hpresent⟩⟩
  · rw [hscan]
    simp only [hseries]
  · exact kept_ascending hvalid (sorted_ascending hnd) p

/-- A directory with notes and with a file that is named as a timeline but holds none. -/
def littered : Machine where
  tree := ⟨[(["r"], .directory), (["r", "notes.txt"], .file "later".toUTF8 false),
    (["r", "resistive_threshold_3_.csv"], .file "later".toUTF8 false)]⟩

def sameName : List Result := [
  ⟨{ size := 2, property := .irDrop, threshold := 3 }, [⟨0, .zero⟩], ""⟩,
  ⟨{ size := 2, property := .irDrop, threshold := 3, horizon := some 9 }, [⟨0, .one⟩], ""⟩]

/-- The machine after the results, and whether all of them were stored. -/
def storeAll : List Result → Machine → Bool × Machine
  | [], m => (true, m)
  | k :: ks, m =>
    let first := Artifacts.persist Machine.host "r" k.config k.timeline k.log m
    let rest := storeAll ks first.2
    (first.1.isOk && rest.1, rest.2)

theorem storeAll_of_allStored {ks : List Result} {m m' : Machine}
    (h : Artifacts.AllStored Machine.host "r" ks m m') :
    storeAll ks m = (true, m') := by
  induction ks generalizing m with
  | nil => exact congrArg (Prod.mk true) h.symm
  | cons k ks ih =>
    obtain ⟨a, m₁, hpersist, hrest⟩ := h
    rw [storeAll, hpersist]
    dsimp only
    rw [ih hrest]
    rfl

theorem allStored_storeAll {ks : List Result} {m : Machine}
    (hks : ∀ k ∈ ks, k.config.IsValid ∧ m.HasRoom "r" k.config) :
    Artifacts.AllStored Machine.host "r" ks m (storeAll ks m).2 := by
  obtain ⟨m', h⟩ := Artifacts.exists_allStored hks
  rwa [storeAll_of_allStored h]

theorem wellFormed_littered : littered.tree.WellFormed :=
  ⟨by unfold FileTree.Distinct; decide, by decide⟩

theorem littered_skips : ∀ names, littered.tree.list littered.cwd "r" = .ok names →
    ∀ name ∈ names, Skips Machine.host "r" littered name := by
  have hlist : littered.tree.list littered.cwd "r" =
      .ok ["notes.txt", "resistive_threshold_3_.csv"] := by
    decide +kernel
  intro names hnames
  rw [hlist] at hnames
  obtain rfl := Except.ok.inj hnames
  intro name hname
  simp only [List.mem_cons, List.not_mem_nil, or_false] at hname
  rcases hname with rfl | rfl
  · exact Or.inl (by decide)
  · have hnone :
        (readTimeline Machine.host.toDisk (Path.join "r" "resistive_threshold_3_.csv")
          littered).toOption = none := by
      decide +kernel
    refine Or.inr (Or.inr (Or.inr fun t ht => ?_))
    rw [ht] at hnone
    cases hnone

theorem littered_scan_finds_stored : ∃ (kept : NoiseProperty → List Result) (m : Machine),
    scan Machine.host "r" (storeAll sameName littered).2 = (.ok ⟨(Path.fileName? "r").getD "",
      NoiseProperty.all.map fun p => (p, (kept p).map (Result.series "r"))⟩, m) ∧
    ∀ p, (kept p).Pairwise Result.Precedes ∧
      ∀ k, k ∈ kept p ↔
        k.config.property = p ∧ Artifacts.lastUnder sameName k.config.csvName = some k := by
  have hlocate : littered.tree.locate littered.cwd "r" = .ok ["r"] := by
    decide +kernel
  have hdir := FileTree.find_of_directory hlocate rfl
  have hresults : ∀ k ∈ sameName, k.config.validated = .ok k.config ∧
      (∀ h ∈ k.config.horizon, h < wordLimit) ∧ k.config.size < halfWordLimit ∧
      k.config.threshold < halfWordLimit ∧
      ∀ x ∈ k.timeline, x.clockCycle < wordLimit ∧ x.probability.isNaN = false := by
    decide
  have hvalid : ∀ k ∈ sameName, k.config.IsValid ∧ ∀ x ∈ k.timeline, x.IsStorable := by
    intro k hk
    obtain ⟨hvalidated, hhorizon, hsize, hthreshold, htimeline⟩ := hresults k hk
    exact ⟨⟨hvalidated, hhorizon, hsize, hthreshold⟩, htimeline⟩
  have hroom : ∀ c, littered.HasRoom "r" c :=
    fun c => Machine.hasRoom_of_shallow hlocate (Or.inl rfl) (by decide)
  exact (scan_finds_last_stored Machine.hasFiles_host wellFormed_littered hdir littered_skips hvalid
    (allStored_storeAll fun k hk => ⟨(hvalid k hk).1, hroom _⟩)).1

end Catalog

end NoiseTimeline
