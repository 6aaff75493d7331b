import NoiseTimeline.Chart.Batch
import NoiseTimeline.Proofs.Chart.Curves
import NoiseTimeline.Proofs.Store.Extension

/-! The charts of a tree of results. Their files have names of their own, whatever the directories
are called, so each file holds the curves of one directory. -/

namespace NoiseTimeline

/-- The curves of one kind of noise in a directory, which is drawn in two sizes. -/
structure Plot where
  directory : String
  property : NoiseProperty
  series : List Series

variable {σ : Type} {host : Host σ} {tree : σ → FileTree} {cwd : σ → Location} {s s₁ s' : σ}
  {root out name : String} {t t' : FileTree} {here : Location} {c c' : Plot} {cs cs' : List Plot}
    {mark mark' : String}
  {written more : List String} {f g : String × String}

namespace Plot

def fileName (c : Plot) (mark : String) : String := s!"{c.directory}_{c.property.token}{mark}.svg"

/-- The names of the chart's files and what they hold. -/
def files (c : Plot) : List (String × String) :=
  Svg.sizes.map fun (mark, size) => (c.fileName mark, Svg.render size c.series)

def paths (c : Plot) (out : String) : List String := c.files.map fun f => Path.join out f.1

theorem toList_fileName (c : Plot) (mark : String) :
    (c.fileName mark).toList =
      c.directory.toList ++ '_' :: (c.property.token.toList ++ mark.toList) ++ ".svg".toList := by
  have hbar : "_".toList = ['_'] := by decide
  simp only [fileName, Text.toString_self, String.toList_append, hbar, List.append_assoc,
    List.cons_append, List.nil_append]

theorem mem_files : f ∈ c.files ↔
    ∃ mark size, (mark, size) ∈ Svg.sizes ∧ f = (c.fileName mark, Svg.render size c.series) := by
  rw [files, List.mem_map]
  constructor
  · rintro ⟨⟨mark, size⟩, hsize, rfl⟩
    exact ⟨mark, size, hsize, rfl⟩
  · rintro ⟨mark, size, hsize, rfl⟩
    exact ⟨(mark, size), hsize, rfl⟩

theorem fileName_inj {size size' : ChartSize Float} (hmark : (mark, size) ∈ Svg.sizes)
    (hmark' : (mark', size') ∈ Svg.sizes) (h : c.fileName mark = c'.fileName mark') :
    c.directory = c'.directory ∧ c.property = c'.property ∧ mark = mark' := by
  have hchars := congrArg String.toList h
  rw [toList_fileName, toList_fileName, List.append_cancel_right_eq] at hchars
  have hlast : ∀ p : NoiseProperty, p.token.toList.getLast? = some 'e' := by
    intro p
    cases p <;> decide
  have hend : ∀ (c : Plot) (mark : String),
      (c.directory.toList ++ '_' :: (c.property.token.toList ++ mark.toList)).getLast? =
        mark.toList.getLast?.or (some 'e') := by
    intro c mark
    rw [List.getLast?_append, List.getLast?_cons, List.getLast?_append, hlast]
    cases mark.toList.getLast? <;> rfl
  have hsame : mark = mark' := by
    have hends := congrArg List.getLast? hchars
    rw [hend, hend] at hends
    simp only [Svg.sizes, List.mem_cons, Prod.mk.injEq, List.not_mem_nil, or_false] at hmark hmark'
    rcases hmark with ⟨rfl, -⟩ | ⟨rfl, -⟩ <;> rcases hmark' with ⟨rfl, -⟩ | ⟨rfl, -⟩
    · rfl
    · exact absurd hends (by decide)
    · exact absurd hends (by decide)
    · rfl
  subst hsame
  rw [← List.cons_append, ← List.cons_append, ← List.append_assoc, ← List.append_assoc,
    List.append_cancel_right_eq] at hchars
  have hlength : ('_' :: c.property.token.toList).length =
      ('_' :: c'.property.token.toList).length := by
    cases c.property <;> cases c'.property <;> decide
  obtain ⟨hdirectory, htoken⟩ := List.append_inj' hchars hlength
  refine ⟨String.toList_inj.mp hdirectory, ?_, rfl⟩
  revert htoken
  cases c.property <;> cases c'.property <;> decide

theorem isName_fileName {size : ChartSize Float} (hname : Path.IsName c.directory)
    (hmark : (mark, size) ∈ Svg.sizes) :
    Path.IsName (c.fileName mark) := by
  have hplain : ∀ d ∈ ['/', '\x00'],
      d ∉ '_' :: (c.property.token.toList ++ mark.toList) ++ ".svg".toList := by
    simp only [Svg.sizes, List.mem_cons, Prod.mk.injEq, List.not_mem_nil, or_false] at hmark
    rcases hmark with ⟨rfl, -⟩ | ⟨rfl, -⟩ <;> cases c.property <;> decide
  have hother : ∀ other : String, other.toList.getLast? ≠ some 'g' → c.fileName mark ≠ other := by
    rintro other hlast rfl
    rw [toList_fileName, List.getLast?_append] at hlast
    exact hlast rfl
  have hchars := toList_fileName c mark
  rw [List.append_assoc] at hchars
  refine ⟨hother _ (by decide), hother _ (by decide), hother _ (by decide), ?_, ?_⟩
  · rw [hchars, List.mem_append, not_or]
    exact ⟨hname.slash, hplain _ (by simp)⟩
  · rw [hchars, List.mem_append, not_or]
    exact ⟨hname.nul, hplain _ (by simp)⟩

theorem not_isCsvName_fileName (c : Plot) (mark : String) :
    Catalog.isCsvName (c.fileName mark) = false :=
  Catalog.not_isCsvName_append (by decide) (by decide)

theorem isName_of_mem_files (hname : Path.IsName c.directory)
    (hf : f ∈ c.files) : Path.IsName f.1 := by
  obtain ⟨mark, size, hmark, rfl⟩ := mem_files.mp hf
  exact isName_fileName hname hmark

theorem isName_of_mem_flatMap (hcs : ∀ c ∈ cs, Path.IsName c.directory)
    (hf : f ∈ cs.flatMap files) :
    Path.IsName f.1 := by
  obtain ⟨c, hc, hf⟩ := List.mem_flatMap.mp hf
  exact isName_of_mem_files (hcs c hc) hf

theorem ne_of_mem_files (hf : f ∈ c.files) (hg : g ∈ c'.files)
    (h : c.directory ≠ c'.directory ∨ c.property ≠ c'.property) : f.1 ≠ g.1 := by
  obtain ⟨mark, size, hmark, rfl⟩ := mem_files.mp hf
  obtain ⟨mark', size', hmark', rfl⟩ := mem_files.mp hg
  intro heq
  obtain ⟨hdirectory, hproperty, -⟩ := fileName_inj hmark hmark' heq
  exact h.elim (· hdirectory) (· hproperty)

theorem nodup_files (c : Plot) : (c.files.map Prod.fst).Nodup := by
  have hne : c.fileName "" ≠ c.fileName "_small" := by
    intro heq
    have hfull : ("", ChartSize.full) ∈ Svg.sizes := List.mem_cons_self
    have hsmall : ("_small", ChartSize.small) ∈ Svg.sizes :=
      List.mem_cons_of_mem _ List.mem_cons_self
    obtain ⟨-, -, hmarks⟩ := fileName_inj hfull hsmall heq
    exact absurd hmarks (by decide)
  simpa [files, Svg.sizes] using hne

end Plot

namespace Svg

/-- The kinds of noise in a directory that there are curves of. -/
def plots (name : String) (groups : List (NoiseProperty × List Series)) : List Plot :=
  groups.filterMap fun (property, series) =>
    if series.isEmpty then none else some ⟨name, property, series⟩

theorem mem_plots {groups : List (NoiseProperty × List Series)} :
    c ∈ plots name groups ↔ c.directory = name ∧ (c.property, c.series) ∈ groups ∧
    c.series ≠ [] := by
  rw [plots, List.mem_filterMap]
  constructor
  · rintro ⟨⟨property, series⟩, hmem, h⟩
    dsimp only at h
    split at h
    · cases h
    · rename_i hne
      obtain rfl := Option.some.inj h
      exact ⟨rfl, hmem, by simpa using hne⟩
  · rintro ⟨rfl, hmem, hne⟩
    refine ⟨_, hmem, ?_⟩
    dsimp only
    rw [if_neg (by simpa using hne)]

theorem writeFiles_eq_ok (hf : host.HasFiles tree cwd) {files : List (String × String)}
    (hnames : ∀ f ∈ files, Path.IsName f.1) (hnd : (files.map Prod.fst).Nodup)
    (h : writeFiles host (files.map fun f => (Path.join out f.1, f.2)) s = (.ok written, s')) :
    written = files.map (fun f => Path.join out f.1) ∧
      FileTree.Written (cwd s) out files (tree s) (tree s') ∧ cwd s' = cwd s := by
  induction files generalizing s written with
  | nil =>
    cases h
    exact ⟨rfl, .nil _ _ _, rfl⟩
  | cons f files ih =>
    obtain ⟨hname, hnames⟩ := List.forall_mem_cons.mp hnames
    rw [List.map_cons, List.nodup_cons] at hnd
    rw [List.map_cons, writeFiles] at h
    split at h
    · cases h
    · rename_i s₁ hfirst
      split at h
      · cases h
      · rename_i rest s₂ hrest
        obtain ⟨rfl, rfl⟩ : Path.join out f.1 :: rest = written ∧ s₂ = s' := by simpa using h
        obtain ⟨hwritten₁, hcwd₁⟩ := hf.written_of_writeFile hname hfirst
        obtain ⟨rfl, hwritten, hcwd⟩ := ih hnames hnd.2 hrest
        rw [hcwd₁] at hwritten hcwd
        refine ⟨rfl, hwritten₁.append hwritten ?_, hcwd⟩
        intro g hg g' hg' heq
        rw [List.mem_singleton.mp hg] at heq
        exact hnd.1 (heq ▸ List.mem_map_of_mem hg')

/-- Charts were written one after the other, and nothing else. -/
structure Draws {σ : Type} (tree : σ → FileTree) (cwd : σ → Location) (out : String)
    (cs : List Plot) (written : List String) (s s' : σ) : Prop where
  paths : written = cs.flatMap (Plot.paths · out)
  files : FileTree.Written (cwd s) out (cs.flatMap Plot.files) (tree s) (tree s')
  cwd : cwd s' = cwd s

theorem Draws.nil (s : σ) : Draws tree cwd out [] [] s s := ⟨rfl, .nil _ _ _, rfl⟩

theorem Draws.of_same (htree : tree s₁ = tree s) (hcwd : cwd s₁ = cwd s)
    (h : Draws tree cwd out cs written s₁ s') :
    Draws tree cwd out cs written s s' :=
  ⟨h.paths, htree ▸ hcwd ▸ h.files, h.cwd.trans hcwd⟩

theorem Draws.append (h : Draws tree cwd out cs written s s₁)
    (h' : Draws tree cwd out cs' more s₁ s')
    (hne : ∀ c ∈ cs, ∀ c' ∈ cs', c.directory ≠ c'.directory ∨ c.property ≠ c'.property) :
    Draws tree cwd out (cs ++ cs') (written ++ more) s s' := by
  refine ⟨by rw [h.paths, h'.paths, List.flatMap_append], ?_, h'.cwd.trans h.cwd⟩
  rw [List.flatMap_append]
  refine h.files.append (h.cwd ▸ h'.files) ?_
  intro f hf g hg
  obtain ⟨c, hc, hf⟩ := List.mem_flatMap.mp hf
  obtain ⟨c', hc', hg⟩ := List.mem_flatMap.mp hg
  exact Plot.ne_of_mem_files hf hg (hne c hc c' hc')

theorem draws_of_writePlots (hf : host.HasFiles tree cwd) (hname : Path.IsName name)
    {groups : List (NoiseProperty × List Series)} (hnd : (groups.map Prod.fst).Nodup)
    (h : writePlots host out name groups s = (.ok written, s')) :
    Draws tree cwd out (plots name groups) written s s' := by
  induction groups generalizing s written with
  | nil =>
    cases h
    exact .nil _
  | cons group groups ih =>
    obtain ⟨property, series⟩ := group
    rw [List.map_cons, List.nodup_cons] at hnd
    rw [writePlots] at h
    split at h
    · rename_i hempty
      have hplots : plots name ((property, series) :: groups) = plots name groups := by
        rw [plots, List.filterMap_cons]
        simp [hempty, plots]
      rw [hplots]
      exact ih hnd.2 h
    · rename_i hdrawn
      have hplots : plots name ((property, series) :: groups) =
          [⟨name, property, series⟩] ++ plots name groups := by
        rw [plots, List.filterMap_cons]
        simp [hdrawn, plots]
      dsimp only at h
      split at h
      · cases h
      · rename_i first s₁ hfirst
        split at h
        · cases h
        · rename_i more s₂ hmore
          obtain ⟨rfl, rfl⟩ : first ++ more = written ∧ s₂ = s' := by simpa using h
          obtain ⟨rfl, hwritten, hcwd⟩ :=
            writeFiles_eq_ok hf (fun _ => Plot.isName_of_mem_files hname)
              (Plot.nodup_files ⟨name, property, series⟩) hfirst
          have hchart : Draws tree cwd out [⟨name, property, series⟩]
              (Plot.paths ⟨name, property, series⟩ out) s s₁ :=
            ⟨by simp, by simpa using hwritten, hcwd⟩
          obtain ⟨htree₁, hcwd₁⟩ :=
            hf.say (.event .info s!"Plotted {series.length} {property.token} curves for {name}") s₁
          rw [hplots]
          refine hchart.append ((ih hnd.2 hmore).of_same htree₁ hcwd₁) ?_
          intro c hc c' hc'
          right
          rw [List.mem_singleton.mp hc]
          rintro rfl
          exact hnd.1 (List.mem_map.mpr ⟨_, (mem_plots.mp hc').2.1, rfl⟩)

/-- The charts of a directory below the root. -/
def chartsIn (t : FileTree) (here : Location) (root name : String) : List Plot :=
  plots name (NoiseProperty.all.map fun p => (p, Catalog.curves t here (Path.join root name) p))

theorem mem_chartsIn : c ∈ chartsIn t here root name ↔
    c.directory = name ∧ c.series = Catalog.curves t here (Path.join root name) c.property ∧
    c.series ≠ [] := by
  have hall : ∀ p : NoiseProperty, p ∈ NoiseProperty.all := by
    intro p
    cases p <;> decide
  rw [chartsIn, mem_plots, List.mem_map]
  constructor
  · rintro ⟨hname, ⟨p, -, hgroup⟩, hdrawn⟩
    obtain ⟨rfl, hseries⟩ := Prod.mk.inj hgroup
    exact ⟨hname, hseries.symm, hdrawn⟩
  · rintro ⟨hname, hseries, hdrawn⟩
    exact ⟨hname, ⟨c.property, hall c.property, by rw [hseries]⟩, hdrawn⟩

theorem draws_of_plotDirectory (hf : host.Browses tree cwd) (hname : Path.IsName name)
    (h : plotDirectory host (Path.join root name) out s = (.ok written, s')) :
    Draws tree cwd out (chartsIn (tree s) (cwd s) root name) written s s' := by
  unfold plotDirectory at h
  split at h
  · cases h
  · rename_i catalog s₁ hscan
    obtain ⟨rfl, htree, hcwd⟩ := Catalog.scan_curves hf hscan
    have hlast : Path.fileName? (Path.join root name) = some name := by
      rw [Path.fileName?_eq_some_iff, Path.parts_join root hname]
      exact ⟨List.getLast?_concat, hname.notAbove⟩
    have hnd : ∀ curves : NoiseProperty → List Series,
        ((NoiseProperty.all.map fun p => (p, curves p)).map Prod.fst).Nodup := by
      intro curves
      rw [List.map_map]
      exact (by decide : (NoiseProperty.all.map id).Nodup)
    rw [hlast] at h
    exact (draws_of_writePlots hf.toHasFiles hname (hnd _) h).of_same htree hcwd

/-- Charts are no timelines, so the curves stay as they are. -/
theorem curves_of_written (hw : FileTree.Written here out (cs.flatMap Plot.files) t t')
    (ht : t.Named) (hcs : ∀ c ∈ cs, Path.IsName c.directory) {dir : String}
    (hdir : t.isDirectory here dir = true) (p : NoiseProperty) :
    Catalog.curves t' here dir p = Catalog.curves t here dir p := by
  obtain ⟨l, hl, hnode⟩ := FileTree.isDirectory_iff.mp hdir
  have ht' := hw.named ht fun _ => Plot.isName_of_mem_flatMap hcs
  refine Catalog.curves_congr ht ht' hl hnode (hw.directories.locate_eq hl)
    ((hw.directories l).mp hnode) ?_
  intro name hcsv
  refine FileTree.fileAt?_congr (hw.others _ ?_)
  intro f hf heq
  obtain ⟨c, -, hf⟩ := List.mem_flatMap.mp hf
  obtain ⟨mark, size, -, rfl⟩ := Plot.mem_files.mp hf
  obtain ⟨-, hname⟩ := List.append_inj' heq rfl
  rw [List.singleton_inj.mp hname, Plot.not_isCsvName_fileName] at hcsv
  cases hcsv

theorem draws_of_plotDirectories (hf : host.Browses tree cwd) {names : List String}
    (hnd : names.Nodup) (ht : (tree s).Named)
    (hnames : ∀ name ∈ names, Path.IsName name ∧
      (tree s).isDirectory (cwd s) (Path.join root name) = true)
    (h : plotDirectories host out (names.map (Path.join root)) s = (.ok written, s')) :
    Draws tree cwd out (names.flatMap (chartsIn (tree s) (cwd s) root)) written s s' := by
  induction names generalizing s written with
  | nil =>
    cases h
    exact .nil _
  | cons name names ih =>
    obtain ⟨⟨hname, hdir⟩, hnames⟩ := List.forall_mem_cons.mp hnames
    rw [List.nodup_cons] at hnd
    rw [List.map_cons, plotDirectories] at h
    split at h
    · cases h
    · rename_i first s₁ hfirst
      split at h
      · cases h
      · rename_i more s₂ hmore
        obtain ⟨rfl, rfl⟩ : first ++ more = written ∧ s₂ = s' := by simpa using h
        have hdraws := draws_of_plotDirectory hf hname hfirst
        have hcs : ∀ c ∈ chartsIn (tree s) (cwd s) root name, Path.IsName c.directory := by
          intro c hc
          rw [(mem_chartsIn.mp hc).1]
          exact hname
        have ht₁ := hdraws.files.named ht fun _ => Plot.isName_of_mem_flatMap hcs
        have hnow : ∀ name ∈ names, Path.IsName name ∧
            (tree s₁).isDirectory (cwd s₁) (Path.join root name) = true := by
          intro name hmem
          rw [hdraws.cwd]
          exact ⟨(hnames name hmem).1,
            hdraws.files.directories.isDirectory_iff.mpr (hnames name hmem).2⟩
        have hcharts : names.flatMap (chartsIn (tree s₁) (cwd s₁) root) =
            names.flatMap (chartsIn (tree s) (cwd s) root) := by
          rw [hdraws.cwd]
          refine List.flatMap_congr fun name hmem => ?_
          rw [chartsIn, chartsIn]
          simp only [curves_of_written hdraws.files ht hcs (hnames name hmem).2]
        have hrest := ih hnd.2 ht₁ hnow hmore
        rw [hcharts] at hrest
        rw [List.flatMap_cons]
        refine hdraws.append hrest ?_
        intro c hc c' hc'
        obtain ⟨name', hname', hc'⟩ := List.mem_flatMap.mp hc'
        left
        rw [(mem_chartsIn.mp hc).1, (mem_chartsIn.mp hc').1]
        rintro rfl
        exact hnd.1 hname'

/-- What is to be drawn below a root: a kind of noise in a directory there with a readable
timeline. -/
structure IsChart (t : FileTree) (here : Location) (root : String) (c : Plot) : Prop where
  listed : ∃ names, t.list here root = .ok names ∧ c.directory ∈ names
  isDirectory : t.isDirectory here (Path.join root c.directory) = true
  series : c.series = Catalog.curves t here (Path.join root c.directory) c.property
  drawn : c.series ≠ []

/-- A directory is listed where it stands, so only its name needs to be a proper one. -/
theorem isChart_iff (ht : t.Named) (hroot : t.isDirectory here root = true) :
    IsChart t here root c ↔
    Path.IsName c.directory ∧ t.isDirectory here (Path.join root c.directory) = true ∧
      c.series = Catalog.curves t here (Path.join root c.directory) c.property ∧ c.series ≠ [] := by
  obtain ⟨l, hl, hnode⟩ := FileTree.isDirectory_iff.mp hroot
  have hlist := FileTree.list_of_directory hl hnode
  constructor
  · rintro ⟨⟨names, hnames, hmem⟩, hdir, hseries, hdrawn⟩
    obtain rfl := Except.ok.inj (hlist.symm.trans hnames)
    exact ⟨ht.isName (FileTree.mem_names.mp hmem), hdir, hseries, hdrawn⟩
  · rintro ⟨hname, hdir, hseries, hdrawn⟩
    refine ⟨⟨_, hlist, ?_⟩, hdir, hseries, hdrawn⟩
    obtain ⟨l', hl', hnode'⟩ := FileTree.isDirectory_iff.mp hdir
    rw [FileTree.locate_join hl hnode hname] at hl'
    split at hl'
    · cases hl'
    · obtain rfl := Except.ok.inj hl'
      rw [FileTree.mem_names, hnode']
      rfl

theorem isChart_of_written (hw : FileTree.Written here out (cs.flatMap Plot.files) t t')
    (ht : t.Named) (hcs : ∀ c ∈ cs, Path.IsName c.directory)
    (hroot : t.isDirectory here root = true) :
    IsChart t' here root c ↔ IsChart t here root c := by
  have ht' := hw.named ht fun _ => Plot.isName_of_mem_flatMap hcs
  rw [isChart_iff ht hroot, isChart_iff ht' (hw.directories.isDirectory_iff.mpr hroot),
    hw.directories.isDirectory_iff]
  constructor
  · rintro ⟨hname, hdir, hrest⟩
    rw [curves_of_written hw ht hcs hdir] at hrest
    exact ⟨hname, hdir, hrest⟩
  · rintro ⟨hname, hdir, hrest⟩
    rw [← curves_of_written hw ht hcs hdir] at hrest
    exact ⟨hname, hdir, hrest⟩

end Svg

/-- By directory, and in one directory resistive noise is the first. -/
def Plot.Precedes (c c' : Plot) : Prop :=
  c.directory < c'.directory ∨
    c.directory = c'.directory ∧ c.property = .irDrop ∧ c'.property = .diDt

theorem Plot.Precedes.ne (h : c.Precedes c') :
    c.directory ≠ c'.directory ∨ c.property ≠ c'.property := by
  rcases h with hlt | ⟨-, hfirst, hsecond⟩
  · exact .inl (String.ne_of_lt hlt)
  · rw [hfirst, hsecond]
    exact .inr (by decide)

namespace Svg

theorem chartsIn_ascending (t : FileTree) (here : Location) (root name : String) :
    (chartsIn t here root name).Pairwise Plot.Precedes := by
  have horder : NoiseProperty.all.Pairwise fun p p' => p = .irDrop ∧ p' = .diDt := by decide
  have hplot : ∀ {p : NoiseProperty} {series : List Series} {c : Plot},
      (if series.isEmpty then none else some ⟨name, p, series⟩) = some c →
      c.directory = name ∧ c.property = p := by
    intro p series c h
    split at h
    · cases h
    · obtain rfl := Option.some.inj h
      exact ⟨rfl, rfl⟩
  rw [chartsIn, plots, List.pairwise_filterMap, List.pairwise_map]
  refine horder.imp ?_
  intro p p' hp c hc c' hc'
  obtain ⟨hname, rfl⟩ := hplot hc
  obtain ⟨hname', rfl⟩ := hplot hc'
  exact .inr ⟨hname.trans hname'.symm, hp⟩

theorem flatMap_chartsIn_ascending {names : List String} (h : names.Pairwise fun x y => x < y) :
    (names.flatMap (chartsIn t here root)).Pairwise Plot.Precedes := by
  rw [List.pairwise_flatMap]
  refine ⟨fun name _ => chartsIn_ascending t here root name, h.imp ?_⟩
  intro name name' hlt c hc c' hc'
  rw [Plot.Precedes, (mem_chartsIn.mp hc).1, (mem_chartsIn.mp hc').1]
  exact .inl hlt

theorem nodup_paths (h : cs.Pairwise Plot.Precedes) (hcs : ∀ c ∈ cs, Path.IsName c.directory) :
    (cs.flatMap (Plot.paths · out)).Nodup := by
  have hnames : (cs.flatMap Plot.files).Pairwise fun f g => f.1 ≠ g.1 := by
    rw [List.pairwise_flatMap]
    refine ⟨fun c _ => List.pairwise_map.mp (Plot.nodup_files c), h.imp ?_⟩
    intro c c' hlt f hf g hg
    exact Plot.ne_of_mem_files hf hg hlt.ne
  have hpaths : cs.flatMap (Plot.paths · out) =
      (cs.flatMap Plot.files).map fun f => Path.join out f.1 :=
    List.map_flatMap.symm
  rw [hpaths, List.Nodup, List.pairwise_map]
  refine hnames.imp_of_mem ?_
  intro f g hf hg hne heq
  exact hne (Path.join_inj (Plot.isName_of_mem_flatMap hcs hf)
    (Plot.isName_of_mem_flatMap hcs hg) heq)

theorem draws_of_list (hf : host.Browses tree cwd) (ht : (tree s).Named) {listed : List String}
    (hlist : host.list root s = .ok listed)
    (h : plotDirectories host out
      (((Catalog.sorted listed).map (Path.join root)).filter fun d => host.isDirectory d s) s =
      (.ok written, s')) :
    (tree s).isDirectory (cwd s) root = true ∧
      ∃ cs : List Plot, (∀ c, c ∈ cs ↔ IsChart (tree s) (cwd s) root c) ∧
      cs.Pairwise Plot.Precedes ∧ Draws tree cwd out cs written s s' := by
  obtain ⟨names, hnames⟩ := hf.listed hlist
  obtain ⟨listed', hlisted', hperm⟩ := hf.list hnames
  obtain rfl : listed' = listed := Except.ok.inj (hlisted'.symm.trans hlist)
  obtain ⟨l, hl, hnode, rfl⟩ := FileTree.list_eq_ok hnames
  refine ⟨FileTree.isDirectory_iff.mpr ⟨l, hl, hnode⟩, ?_⟩
  rw [List.filter_map] at h
  have hmem : ∀ name, name ∈
      (Catalog.sorted listed').filter ((fun d => host.isDirectory d s) ∘ Path.join root) ↔
      name ∈ (tree s).names l ∧ (tree s).isDirectory (cwd s) (Path.join root name) = true := by
    intro name
    rw [List.mem_filter, Catalog.mem_sorted, hperm.mem_iff, Function.comp_apply, hf.isDirectory]
  have hdirs :
      ∀ name ∈ (Catalog.sorted listed').filter ((fun d => host.isDirectory d s) ∘ Path.join root),
      Path.IsName name ∧ (tree s).isDirectory (cwd s) (Path.join root name) = true := by
    intro name hname
    obtain ⟨hname, hdir⟩ := (hmem name).mp hname
    exact ⟨ht.isName (FileTree.mem_names.mp hname), hdir⟩
  have hascending :=
    (Catalog.sorted_ascending (hperm.nodup_iff.mpr (ht.distinct.nodup_names l))).filter
      ((fun d => host.isDirectory d s) ∘ Path.join root)
  have hdraws := draws_of_plotDirectories hf (hascending.imp String.ne_of_lt) ht hdirs h
  refine ⟨_, fun c => ?_, flatMap_chartsIn_ascending hascending, hdraws⟩
  rw [List.mem_flatMap]
  constructor
  · rintro ⟨name, hname, hc⟩
    obtain ⟨rfl, hseries, hdrawn⟩ := mem_chartsIn.mp hc
    obtain ⟨hname, hdir⟩ := (hmem c.directory).mp hname
    exact ⟨⟨_, hnames, hname⟩, hdir, hseries, hdrawn⟩
  · rintro ⟨⟨names, hlist', hname⟩, hdir, hseries, hdrawn⟩
    obtain rfl := Except.ok.inj (hnames.symm.trans hlist')
    exact ⟨c.directory, (hmem c.directory).mpr ⟨hname, hdir⟩,
      mem_chartsIn.mpr ⟨rfl, hseries, hdrawn⟩⟩

theorem draws_of_plotResults (hf : host.Browses tree cwd) (hwf : (tree s).WellFormed)
    (hcwd : ∀ name ∈ cwd s, Path.IsName name)
    (h : plotResults host root out s = (.ok written, s')) :
    ∃ (s₁ : σ) (cs : List Plot), host.makeDirectories out s = (.ok (), s₁) ∧ cwd s₁ = cwd s ∧
      (tree s).Grows (tree s₁) ∧ (tree s₁).Named ∧ (tree s₁).isDirectory (cwd s₁) root = true ∧
      (∀ c, c ∈ cs ↔ IsChart (tree s₁) (cwd s₁) root c) ∧
        cs.Pairwise Plot.Precedes ∧ Draws tree cwd out cs written s₁ s' := by
  unfold plotResults at h
  split at h
  · cases h
  · rename_i s₁ hmake
    obtain ⟨hmakes, hcwd₁⟩ := hf.makeDirectories hmake
    have hgrows := FileTree.grows_makeDirectories (tree s) (cwd s) out
    have ht := hwf.named.makeDirectories hcwd out
    rw [hmakes] at hgrows ht
    split at h
    · cases h
    · rename_i listed hlist
      obtain ⟨hroot, cs, hcharts, hascending, hdraws⟩ := draws_of_list hf ht hlist h
      exact ⟨s₁, cs, hmake, hcwd₁, hgrows, ht, hroot, hcharts, hascending, hdraws⟩

/-- The charts of a tree of results have paths of their own. They are those of the directories'
kinds of noise in their order, each is found under its path, and no other file has changed. -/
theorem charts_stand_apart (hf : host.Browses tree cwd) (hwf : (tree s).WellFormed)
    (hcwd : ∀ name ∈ cwd s, Path.IsName name)
    (h : plotResults host root out s = (.ok written, s')) :
    ∃ (s₁ : σ) (charts : List Plot), host.makeDirectories out s = (.ok (), s₁) ∧
      (tree s).Grows (tree s₁) ∧ (∀ c, c ∈ charts ↔ IsChart (tree s₁) (cwd s₁) root c) ∧
      (∀ c, c ∈ charts ↔ IsChart (tree s') (cwd s') root c) ∧ charts.Pairwise Plot.Precedes ∧
      written = charts.flatMap (fun c =>
        [chartPath out c.directory c.property "", chartPath out c.directory c.property "_small"]) ∧
      written.Nodup ∧
      (∀ c ∈ charts,
        host.readText (chartPath out c.directory c.property "") s' =
          .ok (render .full c.series) ∧
        host.readText (chartPath out c.directory c.property "_small") s' =
          .ok (render .small c.series)) ∧
      ∀ l, (∀ path ∈ written, l ≠ Path.target (cwd s) path) →
        (tree s').fileAt? l = (tree s).fileAt? l := by
  obtain ⟨s₁, charts, hmake, hcwd₁, hgrows, ht, hroot, hcharts, hascending, rfl, hwritten, hcwd'⟩ :=
    draws_of_plotResults hf hwf hcwd h
  have hnames : ∀ c ∈ charts, Path.IsName c.directory :=
    fun c hc => ((isChart_iff ht hroot).mp ((hcharts c).mp hc)).1
  refine ⟨s₁, charts, hmake, hgrows, hcharts, fun c => ?_, hascending, rfl,
    nodup_paths hascending hnames, ?_, ?_⟩
  · rw [hcharts, hcwd', isChart_of_written hwritten ht hnames hroot]
  · have hread : ∀ c ∈ charts, ∀ mark size, (mark, size) ∈ sizes →
        host.readText (chartPath out c.directory c.property mark) s' =
          .ok (render size c.series) := by
      intro c hc mark size hmark
      have hfile : (c.fileName mark, render size c.series) ∈ c.files :=
        Plot.mem_files.mpr ⟨mark, size, hmark, rfl⟩
      have hread := hwritten.readText (List.mem_flatMap.mpr ⟨c, hc, hfile⟩)
        (Plot.isName_of_mem_files (hnames c hc) hfile)
      rw [hf.readText, hcwd']
      exact hread
    intro c hc
    exact ⟨hread c hc "" .full (by simp [sizes]), hread c hc "_small" .small (by simp [sizes])⟩
  · intro l hl
    rw [← hgrows.fileAt?_eq l]
    refine FileTree.fileAt?_congr (hwritten.others l fun f hfile heq => ?_)
    obtain ⟨c, hc, hfile'⟩ := List.mem_flatMap.mp hfile
    refine hl (Path.join out f.1) (List.mem_flatMap.mpr ⟨c, hc, List.mem_map_of_mem hfile'⟩) ?_
    rw [heq, hcwd₁, Path.target_join _ _ (Plot.isName_of_mem_flatMap hnames hfile)]

/-- The charts of one directory start with the name of the other. -/
def twins : Machine where
  tree := ⟨[(["r"], .directory),
    (["r", "a"], .directory),
    (["r", "a", "resistive_threshold_3_.csv"], .file (TimelineCsv.write [⟨0, .zero⟩]).toUTF8 false),
    (["r", "a_resistive"], .directory),
    (["r", "a_resistive", "resistive_inductive_threshold_3_.csv"],
      .file (TimelineCsv.write [⟨0, .zero⟩]).toUTF8 false)]⟩

def twinPaths : List String := [
  "r/a_resistive.svg", "r/a_resistive_small.svg",
  "r/a_resistive_resistive.svg", "r/a_resistive_resistive_small.svg",
  "r/a_resistive_inductive.svg", "r/a_resistive_inductive_small.svg"]

theorem plotResults_twins : ∃ m, plotResults Machine.host "r" "r" twins = (.ok twinPaths, m) := by
  have hmake : Machine.host.makeDirectories "r" twins = (.ok (), twins) :=
    Prod.ext (by decide +kernel) rfl
  have hlist : Machine.host.list "r" twins = .ok ["a", "a_resistive"] := by decide +kernel
  have hsorted : Catalog.sorted ["a", "a_resistive"] = ["a", "a_resistive"] :=
    Catalog.sorted_of_ascending (by decide)
  have hpaths : (plotResults Machine.host "r" "r" twins).1.toOption = some twinPaths := by
    rw [plotResults, hmake]
    dsimp only
    rw [hlist]
    dsimp only
    rw [hsorted]
    decide +kernel
  rcases h : plotResults Machine.host "r" "r" twins with ⟨answer, m⟩
  rw [h] at hpaths
  cases answer with
  | error e => cases hpaths
  | ok paths =>
    obtain rfl := Option.some.inj hpaths
    exact ⟨m, rfl⟩

theorem twins_stand_apart : ∃ (m : Machine) (charts : List Plot),
    plotResults Machine.host "r" "r" twins = (.ok twinPaths, m) ∧
      (∀ c, c ∈ charts ↔ IsChart m.tree m.cwd "r" c) ∧
      twinPaths = charts.flatMap (fun c =>
        [chartPath "r" c.directory c.property "", chartPath "r" c.directory c.property "_small"]) ∧
      ∀ c ∈ charts,
        Machine.host.readText (chartPath "r" c.directory c.property "") m =
          .ok (render .full c.series) ∧
        Machine.host.readText (chartPath "r" c.directory c.property "_small") m =
          .ok (render .small c.series) := by
  obtain ⟨m, h⟩ := plotResults_twins
  have hwf : twins.tree.WellFormed := ⟨by unfold FileTree.Distinct; decide, by decide⟩
  have hcwd : ∀ name ∈ twins.cwd, Path.IsName name := by decide
  obtain ⟨-, charts, -, -, -, hcharts, -, hpaths, -, hread, -⟩ :=
    charts_stand_apart Machine.browses_host hwf hcwd h
  exact ⟨m, charts, h, hcharts, hpaths, hread⟩

end Svg

end NoiseTimeline
