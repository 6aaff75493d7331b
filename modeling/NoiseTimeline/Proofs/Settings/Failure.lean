import NoiseTimeline.Proofs.Settings.Agreement
import NoiseTimeline.Proofs.Store.Extension
import NoiseTimeline.Proofs.Store.Interruption

/-! What is left of a failure. The file of the settings is as it was, and so are the settings in
memory, unless it was in writing that reading them with the wish to have the file in order
failed. -/

namespace NoiseTimeline

open SettingsFile (Operation)

variable {σ δ : Type} {language : SettingsLanguage δ} {host : Host σ} {tree : σ → FileTree}
  {cwd : σ → Location} {f f' : SettingsFile} {a b : σ}

namespace SettingsFile

variable {text path : String} {e : SettingsError} {op : Operation}

/-- A path without a file name is that of a directory, where no file can be made. -/
def Refuses (host : Host σ) (tree : σ → FileTree) (path : String) : Prop :=
  Path.fileName? path = none →
    ∀ a, ∃ e, (host.create path a).1 = .error e ∧ tree (host.create path a).2 = tree a

/-- The file is as it was, and so is every other one but that beside it. -/
structure Spared (tree : σ → FileTree) (cwd : σ → Location) (path : String) (a b : σ) : Prop where
  here : cwd b = cwd a
  others : (tree a).SameFiles (tree b) [Path.target (cwd a) (Path.withExtension path "toml.tmp")]
  file : (tree b).fileAt? (Path.target (cwd a) path) = (tree a).fileAt? (Path.target (cwd a) path)

theorem Spared.of_eq (htree : tree b = tree a) (hcwd : cwd b = cwd a) : Spared tree cwd path a b :=
  ⟨hcwd, htree ▸ .refl _, htree ▸ rfl⟩

theorem Spared.trans {c : σ} (h : Spared tree cwd path a b) (h' : Spared tree cwd path b c) :
    Spared tree cwd path a c := by
  obtain ⟨hcwd, hothers, hfile⟩ := h
  obtain ⟨hcwd', hothers', hfile'⟩ := h'
  rw [hcwd] at hcwd' hothers' hfile'
  exact ⟨hcwd', hothers.trans hothers', hfile'.trans hfile⟩

theorem Spared.read_eq {bytes : ByteArray} (h : Spared tree cwd path a b)
    (hread : (tree a).read (cwd a) path = .ok bytes) :
    (tree b).read (cwd b) path = .ok bytes := by
  unfold FileTree.read at hread
  obtain ⟨n, hfind, hread⟩ := FileTree.bind_eq_ok hread
  obtain ⟨l, hl, hnode, hwants⟩ := FileTree.find_eq_ok hfind
  cases n with
  | directory => cases hread
  | file content executable =>
    cases hread
    have hfile := h.file
    rw [← FileTree.eq_target_of_locate hl, FileTree.fileAt?_eq_some_iff.mpr hnode] at hfile
    rw [h.here]
    exact FileTree.read_eq_of_file (h.others.directories.locate_eq hl)
      (FileTree.fileAt?_eq_some_iff.mp hfile) (hwants (by simp))

/-- Writing has failed. The settings in memory are the defaults that a missing file was to be made
of, or those that have been read from the file, which was to lose what is no section of theirs. -/
structure FailedInWriting (language : SettingsLanguage δ) (host : Host σ) (tree : σ → FileTree)
    (f f' : SettingsFile) (a b : σ) (e : SettingsError) : Prop where
  written : ∃ text c, tree c = tree a ∧ f'.write host text c = (.error e, f', b)
  settings : host.fileExists f.path a = false ∧ f'.settings = {} ∨
    ∃ text d, host.readText f.path a = .ok text ∧ language.document? text = some d ∧
      language.settings? text = some f'.settings ∧ unknownKeys language d ≠ []

theorem isExtension_temporary : Path.IsExtension "toml.tmp" :=
  ⟨by decide, ['t', 'o', 'm', 'l', '.', 't', 'm'], 'p', by decide, by decide⟩

theorem onDisk_eq_error {step : Except IoError Unit × σ} (h : onDisk step f = (.error e, f', b)) :
    ∃ cause, step = (.error cause, b) ∧ e = .io cause ∧ f' = f := by
  obtain ⟨answer, c⟩ := step
  cases answer with
  | error cause =>
    cases h
    exact ⟨cause, rfl, rfl, rfl⟩
  | ok _ => cases h

section

variable (hf : host.MovesAtOnce tree cwd)

include hf

theorem spared_makeDirectories (path dir : String) (a : σ) :
    Spared tree cwd path a (host.makeDirectories dir a).2 :=
  ⟨hf.cwd_makeDirectories _ _, (hf.makesDirectories _ _).sameFiles,
    (hf.makesDirectories _ _).fileAt?_eq _⟩

theorem spared_replaceFile {cause : IoError} (hrefuses : Refuses host tree path)
    (h : host.replaceFile (Path.withExtension path "toml.tmp") path text a = (.error cause, b)) :
    Spared tree cwd path a b := by
  cases hname : Path.fileName? path with
  | some name =>
    obtain ⟨hcwd, hothers⟩ := hf.sameFiles_replaceFile h
    refine ⟨hcwd, hothers, hothers.files _ ?_⟩
    rw [List.mem_singleton]
    exact Path.target_withExtension_ne _ hname isExtension_temporary (by decide)
  | none =>
    obtain ⟨e, hrefused, htree⟩ := hrefuses hname a
    have hsame : Path.withExtension path "toml.tmp" = path := by rw [Path.withExtension, hname]
    rw [hsame] at h
    obtain ⟨_, hcreate, -⟩ | ⟨c, hcreate, -⟩ := Disk.andThen_eq h
    · have hcwd := hf.cwd_create path a
      rw [hcreate] at htree hcwd
      exact .of_eq htree hcwd
    · rw [hcreate] at hrefused
      cases hrefused

theorem write_eq_error (h : f.write host text a = (.error e, f', b))
    (hrefuses : Refuses host tree f.path) :
    f' = f ∧ (∃ cause, e = .io cause) ∧ Spared tree cwd f.path a b := by
  obtain ⟨cause, hstep, rfl, rfl⟩ := onDisk_eq_error h
  refine ⟨rfl, ⟨cause, rfl⟩, ?_⟩
  split at hstep
  · rename_i dir hparent
    have hmakes := spared_makeDirectories hf f'.path dir a
    obtain ⟨_, hmake, -⟩ | ⟨c, hmake, hreplace⟩ := Disk.andThen_eq hstep
    · rw [hmake] at hmakes
      exact hmakes
    · rw [hmake] at hmakes
      exact hmakes.trans (spared_replaceFile hf hrefuses hreplace)
  · exact spared_replaceFile hf hrefuses hstep

theorem loadOrCreate_eq_error (hrefuses : Refuses host tree f.path)
    (h : f.loadOrCreate language host a = (.error e, f', b)) :
    f'.path = f.path ∧ Spared tree cwd f.path a b ∧
      (f'.settings = f.settings ∨
        (∃ cause, e = .io cause) ∧ FailedInWriting language host tree f f' a b e) := by
  obtain ⟨_, -, rfl, rfl⟩ | ⟨hmissing, c, htree, hcwd, hwrite⟩ |
    ⟨-, text, d, settings, hread, hdocument, hs,
      ⟨-, herror, -⟩ | ⟨hunknown, c, htree, hcwd, hwrite⟩⟩ :=
    loadOrCreate_eq hf.toHasFiles h
  · exact ⟨rfl, .of_eq rfl rfl, .inl rfl⟩
  · obtain ⟨rfl, hcause, hspared⟩ := write_eq_error hf hwrite hrefuses
    exact ⟨rfl, (Spared.of_eq htree hcwd).trans hspared,
      .inr ⟨hcause, ⟨_, c, htree, hwrite⟩, .inl ⟨hmissing, rfl⟩⟩⟩
  · cases herror
  · obtain ⟨rfl, hcause, hspared⟩ := write_eq_error hf hwrite hrefuses
    exact ⟨rfl, (Spared.of_eq htree hcwd).trans hspared,
      .inr ⟨hcause, ⟨_, c, htree, hwrite⟩, .inr ⟨text, d, hread, hdocument, hs, hunknown⟩⟩⟩

end

theorem load_eq_error (h : f.load language host a = (.error e, f', b)) : f' = f ∧ b = a := by
  unfold load at h
  split at h
  · cases h
    exact ⟨rfl, rfl⟩
  · split at h
    · cases h
      exact ⟨rfl, rfl⟩
    · split at h
      · cases h
        exact ⟨rfl, rfl⟩
      · cases h

/-- An operation that fails leaves the file as it was. It leaves the settings in memory too, unless
reading them with the wish to have the file in order fails in writing it. -/
theorem failure_leaves_file (hf : host.MovesAtOnce tree cwd) (hrefuses : Refuses host tree f.path)
    (h : f.perform language host a op = (.error e, f', b)) :
    f'.path = f.path ∧ Spared tree cwd f.path a b ∧
    (∀ bytes, (tree a).read (cwd a) f.path = .ok bytes → (tree b).read (cwd b) f.path = .ok bytes) ∧
    (f'.settings = f.settings ∨
      op = .loadOrCreate ∧ (∃ cause, e = .io cause) ∧
      FailedInWriting language host tree f f' a b e) := by
  have hleaves : f'.path = f.path ∧ Spared tree cwd f.path a b ∧ (f'.settings = f.settings ∨
      op = .loadOrCreate ∧ (∃ cause, e = .io cause) ∧
      FailedInWriting language host tree f f' a b e) := by
    cases op with
    | load =>
      obtain ⟨rfl, rfl⟩ := load_eq_error h
      exact ⟨rfl, .of_eq rfl rfl, .inl rfl⟩
    | loadOrCreate =>
      obtain ⟨hpath, hspared, hsettings⟩ := loadOrCreate_eq_error hf hrefuses h
      exact ⟨hpath, hspared, hsettings.imp_right fun hwriting => ⟨rfl, hwriting⟩⟩
    | save =>
      obtain ⟨rfl, -, hspared⟩ := write_eq_error hf h hrefuses
      exact ⟨rfl, hspared, .inl rfl⟩
  obtain ⟨hpath, hspared, hsettings⟩ := hleaves
  exact ⟨hpath, hspared, fun _ => hspared.read_eq, hsettings⟩

def blockedText : String := "[run]\nstride = 2\n\n[legacy]\nfoo = 1\n"

/-- A directory stands where the file would be written before it is moved. -/
def blocked : Machine where
  tree := ⟨[(["psn.toml"], .file blockedText.toUTF8 false), (["psn.toml.tmp"], .directory)]⟩

def blockedAnswer : Except SettingsError Unit × SettingsFile × Machine :=
  perform tomlLanguage Machine.host ⟨"psn.toml", {}⟩ blocked .loadOrCreate

theorem blockedAnswer_eq :
    ∃ e f' b, blockedAnswer = (.error e, f', b) ∧ f'.settings.run.stride = 2 := by
  have hfails : blockedAnswer.1.isOk = false ∧ blockedAnswer.2.1.settings.run.stride = 2 := by
    decide +kernel
  generalize blockedAnswer = r at hfails
  obtain ⟨answer, f', b⟩ := r
  cases answer with
  | ok _ => cases hfails.1
  | error e => exact ⟨e, f', b, rfl, hfails.2⟩

theorem blocked_leaves_file : ∃ e f' b, blockedAnswer = (.error e, f', b) ∧
    b.tree.read b.cwd "psn.toml" = .ok blockedText.toUTF8 := by
  obtain ⟨e, f', b, h, -⟩ := blockedAnswer_eq
  have hrefuses : Refuses Machine.host Machine.tree "psn.toml" :=
    fun hnone => absurd hnone (by decide +kernel)
  have hbefore : blocked.tree.read blocked.cwd "psn.toml" = .ok blockedText.toUTF8 := by
    decide +kernel
  obtain ⟨-, -, hread, -⟩ := failure_leaves_file Machine.movesAtOnce_host hrefuses h
  exact ⟨e, f', b, h, hread _ hbefore⟩

/-- The settings have been read, and the file has not lost what they do not know. -/
theorem blocked_changes_memory :
    ¬ ∀ (f f' : SettingsFile) (a b : Machine) (op : Operation) (e : SettingsError),
      f.perform tomlLanguage Machine.host a op = (.error e, f', b) → f'.settings = f.settings := by
  intro hkeeps
  obtain ⟨e, f', b, h, hstride⟩ := blockedAnswer_eq
  have hsettings : f'.settings = {} := hkeeps _ _ _ _ _ _ h
  rw [hsettings] at hstride
  cases hstride

end SettingsFile

end NoiseTimeline
