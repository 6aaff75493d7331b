import NoiseTimeline.Proofs.Store.Artifacts
import NoiseTimeline.Proofs.Store.Footprint

/-! One directory seen from steps that happen elsewhere. Storing results in another
directory, with or without success, leaves the files of this one alone. -/

namespace NoiseTimeline

variable {σ : Type} {tree : σ → FileTree} {cwd : σ → Location} {dir : String} {P : Location → Prop}
  {s s' s'' : σ}

/-- Paths to files in the directory lead where they led, and whatever is in it or below it is as it
was. -/
structure Undisturbed (tree : σ → FileTree) (cwd : σ → Location) (dir : String)
    (s s' : σ) : Prop where
  here : cwd s' = cwd s
  paths : ∀ name l, Path.IsName name → (tree s).locate (cwd s) (Path.join dir name) = .ok l →
    (tree s').locate (cwd s) (Path.join dir name) = .ok l
  entries : ∀ below, (tree s').node? (Path.target (cwd s) dir ++ below) =
    (tree s).node? (Path.target (cwd s) dir ++ below)

/-- The same for files only, and not for those at some places below the directory. -/
structure Spares (tree : σ → FileTree) (cwd : σ → Location) (dir : String) (P : Location → Prop)
    (s s' : σ) : Prop where
  here : cwd s' = cwd s
  paths : ∀ name l, Path.IsName name → (tree s).locate (cwd s) (Path.join dir name) = .ok l →
    (tree s').locate (cwd s) (Path.join dir name) = .ok l
  files : ∀ below, ¬ P below →
    (tree s').fileAt? (Path.target (cwd s) dir ++ below) =
      (tree s).fileAt? (Path.target (cwd s) dir ++ below)

theorem Undisturbed.refl (s : σ) : Undisturbed tree cwd dir s s :=
  ⟨rfl, fun _ _ _ h => h, fun _ => rfl⟩

theorem Undisturbed.trans (h : Undisturbed tree cwd dir s s')
    (h' : Undisturbed tree cwd dir s' s'') :
    Undisturbed tree cwd dir s s'' := by
  obtain ⟨hcwd, hpaths, hentries⟩ := h
  obtain ⟨hcwd', hpaths', hentries'⟩ := h'
  rw [hcwd] at hcwd' hpaths' hentries'
  exact ⟨hcwd', fun name l hname hl => hpaths' name l hname (hpaths name l hname hl),
    fun below => (hentries' below).trans (hentries below)⟩

theorem Undisturbed.of_eq (htree : tree s' = tree s) (hcwd : cwd s' = cwd s) :
    Undisturbed tree cwd dir s s' := by
  refine ⟨hcwd, ?_, ?_⟩
  · intro name l _ hl
    rw [htree]
    exact hl
  · intro below
    rw [htree]

theorem Undisturbed.spares (h : Undisturbed tree cwd dir s s') : Spares tree cwd dir P s s' :=
  ⟨h.here, h.paths, fun below _ => FileTree.fileAt?_congr (h.entries below)⟩

theorem Spares.trans (h : Spares tree cwd dir P s s') (h' : Spares tree cwd dir P s' s'') :
    Spares tree cwd dir P s s'' := by
  obtain ⟨hcwd, hpaths, hfiles⟩ := h
  obtain ⟨hcwd', hpaths', hfiles'⟩ := h'
  rw [hcwd] at hcwd' hpaths' hfiles'
  exact ⟨hcwd', fun name l hname hl => hpaths' name l hname (hpaths name l hname hl),
    fun below hbelow => (hfiles' below hbelow).trans (hfiles below hbelow)⟩

theorem Spares.mono {Q : Location → Prop} (h : Spares tree cwd dir P s s')
    (hPQ : ∀ below, P below → Q below) :
    Spares tree cwd dir Q s s' :=
  ⟨h.here, h.paths, fun below hbelow => h.files below (mt (hPQ below) hbelow)⟩

theorem spares_of_touches {ls : List Location} (hcwd : cwd s' = cwd s)
    (h : (tree s).Touches (tree s') ls)
    (hP : ∀ below, Path.target (cwd s) dir ++ below ∈ ls → P below) : Spares tree cwd dir P s s' :=
  ⟨hcwd, fun _ _ _ hl => h.directories.locate_eq hl,
    fun below hbelow => FileTree.fileAt?_congr (h.others _ (mt (hP below) hbelow))⟩

theorem spares_of_grows (hcwd : cwd s' = cwd s) (h : (tree s).Grows (tree s')) :
    Spares tree cwd dir P s s' :=
  ⟨hcwd, fun _ _ _ hl => h.keepsDirectories.locate_eq hl, fun _ _ => h.fileAt?_eq _⟩

theorem Disk.of_andThen {α : Type} {P : σ → Prop} {step : Except IoError Unit × σ}
    {next : σ → Except IoError α × σ} (hstep : P step.2)
    (hnext : ∀ s, step = (.ok (), s) → P (next s).2) : P (Disk.andThen step next).2 := by
  obtain ⟨answer, s⟩ := step
  cases answer with
  | error e => exact hstep
  | ok _ => exact hnext s rfl

namespace Host.Confined

variable {host : Host σ}

theorem undisturbed_say (hf : host.Confined tree cwd) (line : ConsoleLine) (s : σ) :
    Undisturbed tree cwd dir s (host.say line s) :=
  .of_eq (hf.say line s).1 (hf.say line s).2

theorem spares_replaceFile (hf : host.Confined tree cwd) {temporary path : String} (text : String)
    (htemporary : ∀ below, Path.target (cwd s) dir ++ below = Path.target (cwd s) temporary →
      P below)
    (hpath : ∀ below, Path.target (cwd s) dir ++ below = Path.target (cwd s) path → P below) :
    Spares tree cwd dir P s (host.replaceFile temporary path text s).2 := by
  have hcreates : Spares tree cwd dir P s (host.create temporary s).2 :=
    spares_of_touches (hf.cwd_create _ _) (hf.creates _ _) (by simpa using htemporary)
  refine Disk.of_andThen hcreates fun s₁ hcreate => ?_
  rw [hcreate] at hcreates
  obtain ⟨hc, hcwd₁⟩ := hf.create hcreate
  have hwrites : Spares tree cwd dir P s₁ (host.write temporary text.toUTF8 s₁).2 := by
    apply spares_of_touches (hf.cwd_write _ _ _) (hf.writes _ _ _)
    rw [hcwd₁]
    simpa using htemporary
  refine Disk.of_andThen (hcreates.trans hwrites) fun s₂ hwrite => ?_
  rw [hwrite] at hwrites
  obtain ⟨ha, hcwd₂⟩ := hf.write hwrite
  have hsyncs : Spares tree cwd dir P s₂ (host.sync temporary s₂).2 :=
    (Undisturbed.of_eq (hf.syncs _ _) (hf.cwd_sync _ _)).spares
  refine Disk.of_andThen ((hcreates.trans hwrites).trans hsyncs) fun s₃ hsync => ?_
  rw [hsync] at hsyncs
  obtain ⟨htree₃, hcwd₃⟩ := hf.sync hsync
  have hcwd : cwd s₃ = cwd s := hcwd₃.trans (hcwd₂.trans hcwd₁)
  have hfile : (tree s₃).find (cwd s₃) temporary ≠ .ok .directory := by
    rw [hcwd₁] at ha
    obtain ⟨l, executable, hl, -, hdirs, -, hnode⟩ := FileTree.node?_of_append hc ha
    rw [hcwd, htree₃]
    intro hfind
    obtain ⟨l', hl', hdir, -⟩ := FileTree.find_eq_ok hfind
    obtain rfl : l' = l := Except.ok.inj (hl'.symm.trans (hdirs.locate_eq hl))
    rw [hnode, if_pos rfl] at hdir
    cases hdir
  refine ((hcreates.trans hwrites).trans hsyncs).trans
    (spares_of_touches (hf.cwd_rename _ _ _) (hf.renames _ _ _ hfile) ?_)
  intro below hmem
  rw [hcwd, List.mem_pair] at hmem
  exact hmem.elim (htemporary below) (hpath below)

theorem spares_persist (hf : host.Confined tree cwd) {resultDir : String} (c : RunConfig)
    (t : Timeline) (log : String)
    (hP : ∀ below, (Path.target (cwd s) dir ++ below).dropLast = Path.target (cwd s) resultDir →
      P below) :
    Spares tree cwd dir P s (Artifacts.persist host resultDir c t log s).2 := by
  have hreplace : ∀ (s₁ : σ) (name text : String), cwd s₁ = cwd s → Path.IsName name →
      Path.IsName (Artifacts.temporary name) → Spares tree cwd dir P s₁
        (host.replaceFile (Artifacts.temporary (Path.join resultDir name))
          (Path.join resultDir name) text s₁).2 := by
    intro s₁ name text hcwd hname htemporary
    have hinside : ∀ name below,
        Path.target (cwd s₁) dir ++ below = Path.target (cwd s₁) resultDir ++ [name] → P below := by
      intro name below heq
      rw [hcwd] at heq
      apply hP
      rw [heq, List.dropLast_concat]
    apply hf.spares_replaceFile
    · rw [Artifacts.temporary_join resultDir hname htemporary, Path.target_join _ _ htemporary]
      exact hinside _
    · rw [Path.target_join _ _ hname]
      exact hinside _
  have hmakes : Spares tree cwd dir P s (host.makeDirectories resultDir s).2 :=
    spares_of_grows (hf.cwd_makeDirectories _ _) (hf.makesDirectories _ _)
  rw [Artifacts.persist]
  dsimp only [Artifacts.within]
  rcases hmake : host.makeDirectories resultDir s with ⟨answer, s₁⟩
  rw [hmake] at hmakes
  cases answer with
  | error e => exact hmakes
  | ok _ =>
    have hlog :=
      hreplace s₁ c.logName log hmakes.here (Artifacts.isName_logName c)
        (Artifacts.isName_temporary_logName c)
    simp only [Artifacts.onPath, Except.mapError]
    rcases hwrite : host.replaceFile (Artifacts.temporary (Path.join resultDir c.logName))
      (Path.join resultDir c.logName)
      log s₁ with ⟨answer, s₂⟩
    rw [hwrite] at hlog
    have hboth := hmakes.trans hlog
    cases answer with
    | error e => exact hboth
    | ok _ =>
      have hcsv :=
        hreplace s₂ c.csvName (TimelineCsv.write t) hboth.here (Artifacts.isName_csvName c)
          (Artifacts.isName_temporary_csvName c)
      dsimp only
      rcases hwrite' : host.replaceFile (Artifacts.temporary (Path.join resultDir c.csvName))
        (Path.join resultDir c.csvName) (TimelineCsv.write t) s₂ with ⟨answer, s₃⟩
      rw [hwrite'] at hcsv
      cases answer with
      | error e => exact hboth.trans hcsv
      | ok _ => exact (hboth.trans hcsv).trans (hf.undisturbed_say _ s₃).spares

end Host.Confined

end NoiseTimeline
