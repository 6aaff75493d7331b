import NoiseTimeline.Proofs.Settings.ReadBack
import NoiseTimeline.Proofs.Store.Artifacts

/-! The settings in memory and those in the file. After each operation that succeeds
they are the same, whatever happened to the files before it. -/

namespace NoiseTimeline

variable {σ δ : Type} {language : SettingsLanguage δ} {tables? : String → Option Toml.Fields}
  {s : Settings}

theorem SettingsFile.isKnown_tableName (section_ : SettingsSection) :
    isKnown section_.tableName = true := by
  cases section_ <;> decide

theorem SettingsFile.unknownKeys_subset (language : SettingsLanguage δ) (d : δ) :
    unknownKeys language d ⊆ language.keys d :=
  fun _ => List.mem_of_mem_filter

/-- A language whose texts give entries under top-level keys: each section under its header gives
its own, and settings are read from these. A document from which entries have been removed is
printed as a text that gives the entries that remain. -/
structure SettingsLanguage.EditsToml (language : SettingsLanguage δ)
    (tables? : String → Option Toml.Fields) : Prop where
  settings : ∀ text, language.settings? text =
    (tables? text).bind fun fields => Settings.read Toml.tomlFormat (.table .header fields)
  sections : ∀ {text fields},
    Toml.Sections language.sectionHeader language.fieldsText text fields →
      tables? text = some fields
  remaining : ∀ {text d fields removed}, language.document? text = some d →
    tables? text = some fields → removed ⊆ language.keys d →
      tables? (language.print (removed.foldl (fun d key => language.remove key d) d)) =
        some (fields.filter fun f => !removed.contains f.1)

namespace SettingsLanguage.EditsToml

theorem settings?_text (hl : language.EditsToml tables?) (h : s.Fits) :
    language.settings? (SettingsFile.text language s) = some s := by
  have hread := hl.sections (Settings.sections_text language h)
  rw [hl.settings, hread, Option.bind_some]
  exact Settings.read_entries h

theorem fits (hl : language.EditsToml tables?) {text : String}
    (hs : language.settings? text = some s) : s.Fits := by
  rw [hl.settings] at hs
  obtain ⟨fields, -, hread⟩ := Option.bind_eq_some_iff.mp hs
  exact Settings.fits_of_read hread

theorem settings?_cleaned (hl : language.EditsToml tables?) {text : String} {d : δ}
    (hdocument : language.document? text = some d) (hs : language.settings? text = some s) :
    language.settings? (language.print (SettingsFile.cleaned language d)) = some s := by
  rw [hl.settings] at hs ⊢
  obtain ⟨fields, hread, hs⟩ := Option.bind_eq_some_iff.mp hs
  have hkeep : ∀ section_ : SettingsSection,
      (!(SettingsFile.unknownKeys language d).contains section_.tableName) = true := by
    intro section_
    simp [SettingsFile.unknownKeys, SettingsFile.isKnown_tableName section_]
  rw [SettingsFile.cleaned,
    hl.remaining hdocument hread (SettingsFile.unknownKeys_subset language d)]
  exact (@Settings.read_filter
    (fun key => !(SettingsFile.unknownKeys language d).contains key) hkeep fields).trans hs

end SettingsLanguage.EditsToml

namespace SettingsFile

variable {host : Host σ} {tree : σ → FileTree} {cwd : σ → Location} {f f' : SettingsFile} {a b : σ}

/-- The file is there and gives the settings in memory. -/
structure Agrees (language : SettingsLanguage δ) (host : Host σ) (f : SettingsFile)
    (a : σ) : Prop where
  present : host.fileExists f.path a = true
  same : ∃ text, host.readText f.path a = .ok text ∧ language.settings? text = some f.settings

theorem onDisk_eq_ok {step : Except IoError Unit × σ} (h : onDisk step f = (.ok (), f', b)) :
    step = (.ok (), b) ∧ f' = f := by
  obtain ⟨answer, c⟩ := step
  cases answer with
  | error e => cases h
  | ok _ =>
    cases h
    exact ⟨rfl, rfl⟩

theorem load_eq_ok (h : f.load language host a = (.ok (), f', b)) :
    b = a ∧ f'.path = f.path ∧ Agrees language host f' b := by
  unfold load at h
  split at h
  · cases h
  · rename_i hexists
    split at h
    · cases h
    · rename_i text hread
      split at h
      · cases h
      · rename_i settings hs
        cases h
        exact ⟨rfl, rfl, by simpa using hexists, text, hread, hs⟩

theorem Agrees.load_eq {other : SettingsFile} (h : Agrees language host f a)
    (hpath : other.path = f.path) :
    other.load language host a = (.ok (), f, a) := by
  obtain ⟨hpresent, text, hread, hs⟩ := h
  rw [load, hpath]
  simp only [hpresent, hread, hs]
  rfl

/-- What settings and their file are used for. -/
inductive Operation where
  | load
  | loadOrCreate
  | save

def perform (language : SettingsLanguage δ) (host : Host σ) (f : SettingsFile) (a : σ) :
    Operation → Except SettingsError Unit × SettingsFile × σ
  | .load => f.load language host a
  | .loadOrCreate => f.loadOrCreate language host a
  | .save => f.save language host a

/-- What operations give one after the other. Before each of them something else may change the
files. -/
def history (language : SettingsLanguage δ) (host : Host σ) :
    List ((σ → σ) × Operation) → SettingsFile → σ →
    List (Except SettingsError Unit × SettingsFile × σ)
  | [], _, _ => []
  | (change, op) :: ops, f, a =>
    let r := f.perform language host (change a) op
    r :: history language host ops r.2.1 r.2.2

theorem fits_perform (host : Host σ) (hl : language.EditsToml tables?) (hfits : f.settings.Fits)
    (a : σ) (op : Operation) :
    (f.perform language host a op).2.1.path = f.path ∧
    (f.perform language host a op).2.1.settings.Fits := by
  cases op with
  | load =>
    rw [perform, load]
    split
    · exact ⟨rfl, hfits⟩
    · split
      · exact ⟨rfl, hfits⟩
      · split
        · exact ⟨rfl, hfits⟩
        · rename_i settings hs
          exact ⟨rfl, hl.fits hs⟩
  | loadOrCreate =>
    rw [perform, loadOrCreate]
    split
    · exact ⟨rfl, Settings.fits_default⟩
    · split
      · exact ⟨rfl, hfits⟩
      · split
        · exact ⟨rfl, hfits⟩
        · split
          · exact ⟨rfl, hfits⟩
          · rename_i settings hs
            dsimp only
            split
            · exact ⟨rfl, hl.fits hs⟩
            · exact ⟨rfl, hl.fits hs⟩
  | save => exact ⟨rfl, hfits⟩

section

variable (hf : host.HasFiles tree cwd)
  (hexists : ∀ path a, host.fileExists path a = (tree a).exists? (cwd a) path)

include hf hexists

omit hexists in
/-- What reading the settings with the wish to have the file in order can do. It is refused, the
file is made of the defaults, or the settings are read and the file loses the keys that are not
known. -/
theorem loadOrCreate_eq {answer : Except SettingsError Unit}
    (h : f.loadOrCreate language host a = (answer, f', b)) :
    (∃ e, answer = .error e ∧ f' = f ∧ b = a) ∨
    (host.fileExists f.path a = false ∧ ∃ c, tree c = tree a ∧ cwd c = cwd a ∧
      write host { f with settings := {} } (text language {}) c = (answer, f', b)) ∨
    (host.fileExists f.path a = true ∧ ∃ text d settings, host.readText f.path a = .ok text ∧
      language.document? text = some d ∧ language.settings? text = some settings ∧
      (unknownKeys language d = [] ∧ answer = .ok () ∧ f' = { f with settings } ∧ b = a ∨
        unknownKeys language d ≠ [] ∧ ∃ c, tree c = tree a ∧ cwd c = cwd a ∧
          write host { f with settings } (language.print (cleaned language d)) c =
            (answer, f', b))) := by
  have hevents : ∀ (line : String → String) (keys : List String) (c : σ),
      tree (keys.foldl (fun c key => host.event .warn (line key) c) c) = tree c ∧
        cwd (keys.foldl (fun c key => host.event .warn (line key) c) c) = cwd c := by
    intro line keys
    induction keys with
    | nil => exact fun c => ⟨rfl, rfl⟩
    | cons key keys ih =>
      intro c
      obtain ⟨htree, hcwd⟩ := hf.say (.event .warn (line key)) c
      obtain ⟨htree', hcwd'⟩ := ih (host.event .warn (line key) c)
      exact ⟨htree'.trans htree, hcwd'.trans hcwd⟩
  unfold loadOrCreate at h
  split at h
  · rename_i hmissing
    obtain ⟨htree, hcwd⟩ := hf.say (.event .info s!"Creating default config at {f.path}") a
    exact .inr (.inl ⟨by simpa using hmissing, _, htree, hcwd, h⟩)
  rename_i hpresent
  split at h
  · cases h
    exact .inl ⟨_, rfl, rfl, rfl⟩
  rename_i text hread
  split at h
  · cases h
    exact .inl ⟨_, rfl, rfl, rfl⟩
  rename_i d hdocument
  split at h
  · cases h
    exact .inl ⟨_, rfl, rfl, rfl⟩
  rename_i settings hs
  refine .inr (.inr ⟨by simpa using hpresent, text, d, settings, hread, hdocument, hs, ?_⟩)
  dsimp only at h
  split at h
  · rename_i hknown
    cases h
    exact .inl ⟨List.isEmpty_iff.mp hknown, rfl, rfl, rfl⟩
  · rename_i hunknown
    obtain ⟨htree, hcwd⟩ :=
      hevents (fun key => s!"Ignoring unknown config section '{key}'") (unknownKeys language d) a
    obtain ⟨htree', hcwd'⟩ :=
      hf.say (.event .info s!"Removed unknown sections from {f.path}")
        ((unknownKeys language d).foldl
          (fun c key => host.event .warn s!"Ignoring unknown config section '{key}'" c) a)
    exact .inr ⟨mt List.isEmpty_iff.mpr hunknown, _, htree'.trans htree, hcwd'.trans hcwd, h⟩

theorem write_eq_ok {text : String} (h : f.write host text a = (.ok (), f', b)) :
    f' = f ∧ host.fileExists f.path b = true ∧ host.readText f.path b = .ok text := by
  obtain ⟨hstep, rfl⟩ := onDisk_eq_ok h
  obtain ⟨c, hreplace⟩ : ∃ c,
      host.replaceFile (Path.withExtension f'.path "toml.tmp") f'.path text c = (.ok (), b) := by
    split at hstep
    · obtain ⟨c, -, hreplace⟩ := Disk.andThen_eq_ok hstep
      exact ⟨c, hreplace⟩
    · exact ⟨a, hstep⟩
  obtain ⟨origin, goal, -, hgoal, hwants, hreplaced, hcwd⟩ := hf.replaceFile_eq_ok hreplace
  obtain ⟨executable, hnode⟩ := hreplaced.content
  have hl : (tree b).locate (cwd b) f'.path = .ok goal := by
    rw [hcwd]
    exact hreplaced.directories.locate_eq hgoal
  refine ⟨rfl, ?_, hf.readText.mpr (FileTree.readText_of_file hl hnode hwants)⟩
  rw [hexists, FileTree.exists?, FileTree.find_of_file hl hnode hwants]
  rfl

theorem save_eq_ok (hl : language.EditsToml tables?) (hfits : f.settings.Fits)
    (h : f.save language host a = (.ok (), f', b)) :
    f' = f ∧ Agrees language host f b := by
  obtain ⟨heq, hpresent, hread⟩ := write_eq_ok hf hexists h
  exact ⟨heq, hpresent, _, hread, hl.settings?_text hfits⟩

theorem loadOrCreate_eq_ok (hl : language.EditsToml tables?)
    (h : f.loadOrCreate language host a = (.ok (), f', b)) :
    f'.path = f.path ∧ Agrees language host f' b ∧
      (host.fileExists f.path a = false → f'.settings = {}) ∧
      (host.fileExists f.path a = true → ∃ text, host.readText f.path a = .ok text ∧
        language.settings? text = some f'.settings) := by
  obtain ⟨e, herror, -⟩ | ⟨hmissing, c, -, -, hwrite⟩ | ⟨hpresent, text, d, settings, hread,
      hdocument, hs, hrest⟩ :=
    loadOrCreate_eq hf h
  · cases herror
  · obtain ⟨rfl, hagrees⟩ := save_eq_ok hf hexists hl Settings.fits_default hwrite
    exact ⟨rfl, hagrees, fun _ => rfl, fun hpresent => absurd hpresent (by simp [hmissing])⟩
  · have hmissing : host.fileExists f.path a ≠ false := by simp [hpresent]
    obtain ⟨-, -, rfl, rfl⟩ | ⟨-, c, -, -, hwrite⟩ := hrest
    · exact ⟨rfl, ⟨hpresent, text, hread, hs⟩, (absurd · hmissing), fun _ => ⟨text, hread, hs⟩⟩
    · obtain ⟨rfl, hthere, hcleaned⟩ := write_eq_ok hf hexists hwrite
      exact ⟨rfl, ⟨hthere, _, hcleaned, hl.settings?_cleaned hdocument hs⟩, (absurd · hmissing),
        fun _ => ⟨text, hread, hs⟩⟩

theorem agrees_perform (hl : language.EditsToml tables?) (hfits : f.settings.Fits) {op : Operation}
    (h : f.perform language host a op = (.ok (), f', b)) : Agrees language host f' b := by
  cases op with
  | load => exact (load_eq_ok h).2.2
  | loadOrCreate => exact (loadOrCreate_eq_ok hf hexists hl h).2.1
  | save =>
    obtain ⟨rfl, hagrees⟩ := save_eq_ok hf hexists hl hfits h
    exact hagrees

theorem agrees_history (hl : language.EditsToml tables?) (ops : List ((σ → σ) × Operation))
    (hfits : f.settings.Fits) (a : σ) :
    ∀ r ∈ history language host ops f a, r.1 = .ok () →
    r.2.1.path = f.path ∧ Agrees language host r.2.1 r.2.2 := by
  induction ops generalizing f a with
  | nil => exact nofun
  | cons step ops ih =>
    obtain ⟨change, op⟩ := step
    obtain ⟨hpath, hkept⟩ := fits_perform host hl hfits (change a) op
    rw [history, List.forall_mem_cons]
    refine ⟨fun hok => ⟨hpath, agrees_perform hf hexists hl hfits (Prod.ext hok rfl)⟩, ?_⟩
    have hrest := ih hkept (f.perform language host (change a) op).2.2
    rw [hpath] at hrest
    exact hrest

end

/-- Settings in memory and in their file agree after each operation that succeeds, in any history in
which others write and remove files. What was saved is loaded again; a file that is made and one
that is cleaned give the settings in memory, and cleaning changes no setting. -/
theorem memory_agrees_with_file (hf : host.HasFiles tree cwd)
    (hexists : ∀ path a, host.fileExists path a = (tree a).exists? (cwd a) path)
    (hl : language.EditsToml tables?) (hfits : f.settings.Fits) :
    (∀ ops a, ∀ r ∈ history language host ops f a, r.1 = .ok () →
      r.2.1.path = f.path ∧ Agrees language host r.2.1 r.2.2) ∧
    (∀ a f' b, f.save language host a = (.ok (), f', b) →
      ∀ other : SettingsFile, other.path = f.path → other.load language host b = (.ok (), f, b)) ∧
    (∀ a f' b, host.fileExists f.path a = false → f.loadOrCreate language host a = (.ok (), f', b) →
      f'.settings = {} ∧ Agrees language host f' b) ∧
    (∀ a f' b, host.fileExists f.path a = true → f.loadOrCreate language host a = (.ok (), f', b) →
      ∃ text, host.readText f.path a = .ok text ∧ language.settings? text = some f'.settings ∧
        Agrees language host f' b) := by
  refine ⟨fun ops a => agrees_history hf hexists hl ops hfits a, ?_, ?_, ?_⟩
  · intro a f' b hsave other hpath
    exact (save_eq_ok hf hexists hl hfits hsave).2.load_eq hpath
  · intro a f' b hmissing hmake
    obtain ⟨-, hagrees, hdefault, -⟩ := loadOrCreate_eq_ok hf hexists hl hmake
    exact ⟨hdefault hmissing, hagrees⟩
  · intro a f' b hpresent hread
    obtain ⟨-, hagrees, -, hsame⟩ := loadOrCreate_eq_ok hf hexists hl hread
    obtain ⟨text, htext, hs⟩ := hsame hpresent
    exact ⟨text, htext, hs, hagrees⟩

/-! A file with a section of the settings and one that is no longer known. -/

def datedText : String :=
  "# kept\n\n# Runs\n[run]\nstride = 2\n\n# Old\n[legacy]\nfoo = true\n"

/-- The editor of TOML for this one text. -/
def datedLanguage : SettingsLanguage Toml.Document :=
  { tomlLanguage with
    document? := fun text => if text = datedText then tomlLanguage.document? text else none }

def datedTables? (text : String) : Option Toml.Fields :=
  (Toml.Document.read? Toml.Document.readRange text).map Toml.Document.fields

theorem print_dated : ∀ removed ∈ ["run", "legacy"].sublists,
    (datedLanguage.document? datedText).map (fun d => (datedLanguage.keys d,
      decide (datedTables?
        (datedLanguage.print (removed.foldl (fun d key => datedLanguage.remove key d) d)) =
          (datedTables? datedText).map fun fields =>
            fields.filter fun f => !removed.contains f.1))) =
      some (["run", "legacy"], true) := by
  decide +kernel

theorem exists_sublist_mem_iff {removed keys : List String} (h : removed ⊆ keys) :
    ∃ kept ∈ keys.sublists, ∀ name, name ∈ removed ↔ name ∈ kept := by
  refine ⟨keys.filter removed.contains, List.mem_sublists.mpr List.filter_sublist, fun name => ?_⟩
  rw [List.mem_filter, List.contains_iff_mem]
  exact ⟨fun hmem => ⟨h hmem, hmem⟩, And.right⟩

theorem editsToml_datedLanguage : datedLanguage.EditsToml datedTables? where
  settings text := by
    rw [datedTables?, Option.bind_map]
    rfl
  sections := Toml.read?_sections
  remaining := by
    intro text d fields removed hdocument hread hremoved
    obtain ⟨rfl, -⟩ := Option.ite_none_right_eq_some.mp hdocument
    have hkeys := print_dated [] (by decide)
    rw [hdocument, Option.map_some, Option.some.injEq, Prod.mk.injEq] at hkeys
    rw [hkeys.1] at hremoved
    obtain ⟨kept, hkept, hsame⟩ := exists_sublist_mem_iff hremoved
    have hprinted := print_dated kept hkept
    rw [hdocument, Option.map_some, Option.some.injEq, Prod.mk.injEq, decide_eq_true_eq, hread,
      Option.map_some] at hprinted
    have hedited : removed.foldl (fun d key => datedLanguage.remove key d) d =
        kept.foldl (fun d key => datedLanguage.remove key d) d :=
      Toml.Document.foldl_remove_congr hsame d
    rw [hedited, hprinted.2]
    refine congrArg some (List.filter_congr fun f _ => congrArg _ ?_)
    rw [Bool.eq_iff_iff, List.contains_iff_mem, List.contains_iff_mem]
    exact (hsame f.1).symm

/-- The files are changed from outside before three of four operations, and the last one fails. -/
def datedOps : List ((Machine → Machine) × Operation) := [
  (fun m => { m with tree := m.tree.put ["psn.toml"] (.file datedText.toUTF8 false) },
    .loadOrCreate),
  (id, .load),
  (fun m => { m with tree := m.tree.erase ["psn.toml"] }, .loadOrCreate),
  (fun m => { m with tree := m.tree.erase ["psn.toml"] }, .load)]

theorem datedOps_agree :
    (history datedLanguage Machine.host datedOps ⟨"psn.toml", {}⟩ {}).map
      (fun r => (r.1.isOk, r.2.1.settings.run.stride)) =
        [(true, 2), (true, 2), (true, 1), (false, 1)] ∧
      ∀ r ∈ history datedLanguage Machine.host datedOps ⟨"psn.toml", {}⟩ {}, r.1 = .ok () →
        r.2.1.path = "psn.toml" ∧ Agrees datedLanguage Machine.host r.2.1 r.2.2 := by
  have hagree :=
    memory_agrees_with_file (f := ⟨"psn.toml", {}⟩) Machine.hasFiles_host (fun _ _ => rfl)
      editsToml_datedLanguage Settings.fits_default
  exact ⟨by decide +kernel, hagree.1 datedOps {}⟩

end SettingsFile

end NoiseTimeline
