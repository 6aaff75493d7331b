import NoiseTimeline.Proofs.Store.ArtifactNames
import NoiseTimeline.Proofs.TimelineCsv

/-! What storing results does. The log and then the timeline take the places of
earlier ones, and each is read from its path again. -/

namespace NoiseTimeline

theorem Text.decode?_toUTF8 (s : String) : Text.decode? s.toUTF8 = some s := by
  rw [Text.decode?, String.fromUTF8?, String.toUTF8_eq_toByteArray, dif_pos s.isValidUTF8]
  rfl

namespace FileTree

variable {t t' : FileTree} {cwd origin goal l : Location} {path text : String}

theorem readText_of_read (h : t.read cwd path = .ok text.toUTF8) :
    t.readText cwd path = .ok text := by
  rw [readText, h]
  simp only [bind, Except.bind, Text.decode?_toUTF8]

theorem readText_of_file {executable : Bool} (hl : t.locate cwd path = .ok l)
    (hnode : t.node? l = some (.file text.toUTF8 executable))
    (hwants : Path.wantsDirectory path = false) :
    t.readText cwd path = .ok text :=
  readText_of_read (read_eq_of_file hl hnode hwants)

end FileTree

variable {σ : Type} {host : Host σ} {tree : σ → FileTree} {cwd : σ → Location}

namespace Artifacts

theorem onPath_eq_ok {α : Type} {path : String} {r : Except IoError α × σ} {a : α} {s : σ}
    (h : onPath path r = (.ok a, s)) : r = (.ok a, s) := by
  obtain ⟨r, s'⟩ := r
  cases r with
  | error e => cases h
  | ok b =>
    cases h
    rfl

/-- What a store that succeeds has done: the log is in place before the timeline. -/
theorem persist_eq_ok {dir : String} {c : RunConfig} {t : Timeline} {log : String} {s s' : σ}
    {a : Artifacts} (h : persist host dir c t log s = (.ok a, s')) :
    a = within dir c ∧ ∃ s₁ s₂ s₃, host.makeDirectories dir s = (.ok (), s₁) ∧
      host.replaceFile (temporary (within dir c).runLog)
        (within dir c).runLog log s₁ = (.ok (), s₂) ∧
      host.replaceFile (temporary (within dir c).csv)
        (within dir c).csv (TimelineCsv.write t) s₂ = (.ok (), s₃) ∧
      ∃ line, s' = host.say line s₃ := by
  unfold persist at h
  dsimp only at h
  split at h
  · cases h
  · rename_i s₁ hdir
    split at h
    · cases h
    · rename_i s₂ hlog
      split at h
      · cases h
      · rename_i s₃ hcsv
        obtain ⟨ha, hs⟩ := Prod.mk.inj h
        exact ⟨(Except.ok.inj ha).symm, s₁, s₂, s₃, onPath_eq_ok hdir, onPath_eq_ok hlog,
          onPath_eq_ok hcsv, _, hs.symm⟩

theorem temporary_join (dir : String) {name : String} (h : Path.IsName name)
    (h' : Path.IsName (temporary name)) :
    temporary (Path.join dir name) = Path.join dir (temporary name) :=
  Path.join_append h h'

theorem read_persist (hf : host.HasFiles tree cwd) {dir : String} {c : RunConfig} {t : Timeline}
    {log : String} {s s' : σ} {a : Artifacts} (h : persist host dir c t log s = (.ok a, s')) :
    (tree s').read (cwd s') a.csv = .ok (TimelineCsv.write t).toUTF8 ∧
    (tree s').read (cwd s') a.runLog = .ok log.toUTF8 := by
  obtain ⟨rfl, s₁, s₂, s₃, -, hlog, hcsv, line, rfl⟩ := persist_eq_ok h
  dsimp only [within] at hlog hcsv ⊢
  obtain ⟨origin₂, goal₂, -, hgoal₂, hwants₂, hrep₂, hcwd₂⟩ := hf.replaceFile_eq_ok hlog
  obtain ⟨origin₃, goal₃, horigin₃, hgoal₃, hwants₃, hrep₃, hcwd₃⟩ := hf.replaceFile_eq_ok hcsv
  rw [temporary_join dir (isName_csvName c) (isName_temporary_csvName c)] at horigin₃
  have hlast := FileTree.getLast?_of_locate_join (isName_logName c) hgoal₂
  have hgoal : goal₂ ≠ goal₃ := by
    rintro rfl
    have hcsvLast := FileTree.getLast?_of_locate_join (isName_csvName c) hgoal₃
    exact RunConfig.csvName_ne_logName c c (Option.some.inj (hcsvLast.symm.trans hlast))
  have horigin : goal₂ ≠ origin₃ := by
    rintro rfl
    have hcsvLast := FileTree.getLast?_of_locate_join (isName_temporary_csvName c) horigin₃
    exact temporary_ne_logName c.csvName c (Option.some.inj (hcsvLast.symm.trans hlast))
  obtain ⟨executable₂, hnode₂⟩ := hrep₂.content
  obtain ⟨executable₃, hnode₃⟩ := hrep₃.content
  have hcwd : cwd s₃ = cwd s₁ := hcwd₃.trans hcwd₂
  rw [(hf.say line s₃).1, (hf.say line s₃).2]
  constructor
  · rw [hcwd₃]
    exact FileTree.read_eq_of_file (hrep₃.directories.locate_eq hgoal₃) hnode₃ hwants₃
  · rw [hcwd]
    have hkept : (tree s₃).node? goal₂ = some (.file log.toUTF8 executable₂) :=
      (hrep₃.others goal₂ hgoal horigin).trans hnode₂
    exact FileTree.read_eq_of_file ((hrep₂.directories.trans hrep₃.directories).locate_eq hgoal₂)
      hkept hwants₂

theorem readTimeline_persist (hf : host.HasFiles tree cwd) {dir : String} {c : RunConfig}
    {t : Timeline} {log : String} {s s' : σ} {a : Artifacts} (ht : ∀ x ∈ t, x.IsStorable)
    (h : persist host dir c t log s = (.ok a, s')) :
    readTimeline host.toDisk a.csv s' = .ok t := by
  have hread : host.readText a.csv s' = .ok (TimelineCsv.write t) :=
    hf.readText.mpr (FileTree.readText_of_read (read_persist hf h).1)
  rw [readTimeline, hread]
  simp only [TimelineCsv.parse_write ht]
  rfl

end Artifacts

end NoiseTimeline
