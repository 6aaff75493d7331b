import NoiseTimeline.Proofs.Settings.Agreement
import NoiseTimeline.Proofs.Toml.Ranges

/-! What a settings file loses when it is put in order: the entries under top-level keys that are no
sections of the settings, and nothing else. Put in order once, it stays as it is. -/

namespace NoiseTimeline

variable {σ δ : Type} {language : SettingsLanguage δ} {entries : δ → Toml.Fields} {text : String}
  {d : δ} {s : Settings}

/-- A language whose documents hold the entries under the top-level keys of TOML, and lose what is
removed. The settings of a text that can be edited are read from these entries. -/
structure SettingsLanguage.HoldsToml (language : SettingsLanguage δ) (entries : δ → Toml.Fields) :
    Prop where
  settings : ∀ {text d}, language.document? text = some d →
    language.settings? text = Settings.read Toml.tomlFormat (.table .header (entries d))
  keys : ∀ d, language.keys d = (entries d).map Prod.fst
  remove : ∀ key d, entries (language.remove key d) = (entries d).filter fun e => e.1 != key

/-- A text which can lose any of its entries: with them removed its document is printed as a text of
the others. -/
def SettingsLanguage.PrintsRest (language : SettingsLanguage δ) (entries : δ → Toml.Fields)
    (text : String) : Prop :=
  ∀ d removed, language.document? text = some d → removed ⊆ language.keys d →
    ∃ d', language.document?
      (language.print (removed.foldl (fun d key => language.remove key d) d)) = some d' ∧
      entries d' = entries (removed.foldl (fun d key => language.remove key d) d)

namespace SettingsLanguage.HoldsToml

theorem entries_foldl_remove (hl : language.HoldsToml entries) (removed : List String) (d : δ) :
    entries (removed.foldl (fun d key => language.remove key d) d) =
      (entries d).filter fun e => !removed.contains e.1 := by
  induction removed generalizing d with
  | nil => simp
  | cons key removed ih =>
    rw [List.foldl_cons, ih, hl.remove, List.filter_filter]
    refine List.filter_congr fun e _ => ?_
    rw [List.contains_cons, Bool.not_or, Bool.and_comm, bne]

theorem entries_cleaned (hl : language.HoldsToml entries) (d : δ) :
    entries (SettingsFile.cleaned language d) = (entries d).filter fun e =>
      SettingsFile.isKnown e.1 := by
  rw [SettingsFile.cleaned, hl.entries_foldl_remove]
  refine List.filter_congr fun e he => ?_
  have hkey : e.1 ∈ language.keys d := hl.keys d ▸ List.mem_map_of_mem he
  cases hknown : SettingsFile.isKnown e.1 <;> simp [SettingsFile.unknownKeys, hkey, hknown]

theorem keys_filter (hl : language.HoldsToml entries) {d' : δ} {keep : String → Bool}
    (h : entries d' = (entries d).filter fun e => keep e.1) :
    language.keys d' = (language.keys d).filter keep := by
  rw [hl.keys, hl.keys, h, List.filter_map]
  rfl

end SettingsLanguage.HoldsToml

namespace SettingsFile

variable {host : Host σ} {tree : σ → FileTree} {cwd : σ → Location} {f f' : SettingsFile} {a b : σ}

theorem unknownKeys_eq_nil_iff :
    unknownKeys language d = [] ↔ ∀ key ∈ language.keys d, isKnown key = true := by
  simp [unknownKeys]

theorem loadOrCreate_of_known (hpresent : host.fileExists f.path a = true)
    (hread : host.readText f.path a = .ok text) (hdocument : language.document? text = some d)
    (hs : language.settings? text = some s) (hknown : unknownKeys language d = []) :
    f.loadOrCreate language host a = (.ok (), { f with settings := s }, a) := by
  rw [loadOrCreate]
  simp only [hpresent, hread, hdocument, hs, hknown]
  rfl

/-- A file that is there and can be put in order is left alone if all its top-level keys are
sections of the settings. Otherwise it loses the entries under the others, and keeps the entries
under those as they are and in their order. Putting it in order again gives the same settings and
does nothing. -/
theorem cleaning_is_exact (hf : host.HasFiles tree cwd)
    (hexists : ∀ path a, host.fileExists path a = (tree a).exists? (cwd a) path)
    (hl : language.HoldsToml entries) (hpresent : host.fileExists f.path a = true)
    (hread : host.readText f.path a = .ok text) (hprints : language.PrintsRest entries text)
    (h : f.loadOrCreate language host a = (.ok (), f', b)) :
    ∃ d, language.document? text = some d ∧
      ((∀ key ∈ language.keys d, isKnown key = true) → b = a) ∧
      ((∃ key ∈ language.keys d, isKnown key = false) →
        ∃ text' d', host.readText f'.path b = .ok text' ∧ language.document? text' = some d' ∧
          language.keys d' = (language.keys d).filter isKnown ∧
          entries d' = (entries d).filter fun e => isKnown e.1) ∧
      ∀ g : SettingsFile, g.path = f.path → g.loadOrCreate language host b = (.ok (), f', b) := by
  obtain ⟨e, herror, -⟩ | ⟨hmissing, -⟩ | ⟨-, text₁, d, settings, hread₁, hdocument, hs, hrest⟩ :=
    loadOrCreate_eq hf h
  · cases herror
  · rw [hpresent] at hmissing
    cases hmissing
  obtain rfl : text₁ = text := Except.ok.inj (hread₁.symm.trans hread)
  refine ⟨d, hdocument, ?_⟩
  obtain ⟨hknown, -, rfl, rfl⟩ | ⟨hunknown, c, -, -, hwrite⟩ := hrest
  · refine ⟨fun _ => rfl, ?_, ?_⟩
    · rintro ⟨key, hkey, hother⟩
      rw [unknownKeys_eq_nil_iff.mp hknown key hkey] at hother
      cases hother
    · rintro ⟨path, old⟩ rfl
      exact loadOrCreate_of_known hpresent hread hdocument hs hknown
  · obtain ⟨rfl, hthere, hprinted⟩ := write_eq_ok hf hexists hwrite
    obtain ⟨d', hdocument', hentries⟩ :
        ∃ d', language.document? (language.print (cleaned language d)) = some d' ∧
          entries d' = entries (cleaned language d) :=
      hprints d _ hdocument (unknownKeys_subset language d)
    rw [hl.entries_cleaned] at hentries
    have hkeys := hl.keys_filter hentries
    have hknown : unknownKeys language d' = [] := by
      rw [unknownKeys_eq_nil_iff, hkeys]
      exact fun key hkey => (List.mem_filter.mp hkey).2
    have hs' : language.settings? (language.print (cleaned language d)) = some settings := by
      rw [hl.settings hdocument', hentries, Settings.read_filter isKnown_tableName,
        ← hl.settings hdocument, hs]
    refine ⟨fun hall => absurd (unknownKeys_eq_nil_iff.mpr hall) hunknown, fun _ => ?_, ?_⟩
    · exact ⟨_, d', hprinted, hdocument', hkeys, hentries⟩
    · rintro ⟨path, old⟩ rfl
      exact loadOrCreate_of_known hthere hprinted hdocument' hs' hknown

/-- A dotted key and tables that share a header, which are not known, and a key of a known section
that is not. -/
def litteredText : String := "a.b = 1\n[run]\nx = 2\n[[p]]\n[[p]]\n[paths]\n"

def litteredKeys : List String := ["a", "run", "p", "paths"]

theorem print_littered : ∀ removed ∈ litteredKeys.sublists,
    (tomlLanguage.document? litteredText).map (fun d =>
      (tomlLanguage.keys d,
        decide ((tomlLanguage.document?
            (tomlLanguage.print (removed.foldl (fun d key => tomlLanguage.remove key d) d))).map
              Toml.Document.fields =
          some (removed.foldl (fun d key => tomlLanguage.remove key d) d).fields))) =
      some (litteredKeys, true) := by
  decide +kernel

theorem printsRest_littered : tomlLanguage.PrintsRest Toml.Document.fields litteredText := by
  intro d removed hdocument hremoved
  have hkeys := print_littered [] (List.mem_sublists.mpr (List.nil_sublist _))
  rw [hdocument, Option.map_some, Option.some.injEq, Prod.mk.injEq] at hkeys
  rw [hkeys.1] at hremoved
  obtain ⟨kept, hkept, hsame⟩ := exists_sublist_mem_iff hremoved
  have hprinted := print_littered kept hkept
  rw [hdocument, Option.map_some, Option.some.injEq, Prod.mk.injEq, decide_eq_true_eq] at hprinted
  have hedited : removed.foldl (fun d key => tomlLanguage.remove key d) d =
      kept.foldl (fun d key => tomlLanguage.remove key d) d :=
    Toml.Document.foldl_remove_congr hsame d
  rw [hedited]
  exact Option.map_eq_some_iff.mp hprinted.2

/-- The reader of settings accepts more integers than the editor, so it finds the entries of the
document. -/
theorem holdsToml_tomlLanguage : tomlLanguage.HoldsToml Toml.Document.fields where
  settings {text d} hdocument := by
    have hread := Toml.extended_read? Toml.editRange_within text d hdocument
    have hsettings : tomlLanguage.settings? text = Settings.ofToml? text := rfl
    rw [hsettings, Settings.ofToml?, hread]
    rfl
  keys _ := rfl
  remove _ _ := rfl

def littered : Machine where
  tree := ⟨[(["psn.toml"], .file litteredText.toUTF8 false)]⟩

def litteredAnswer : Except SettingsError Unit × SettingsFile × Machine :=
  loadOrCreate tomlLanguage Machine.host ⟨"psn.toml", {}⟩ littered

theorem litteredAnswer_eq : ∃ f' b, litteredAnswer = (.ok (), f', b) ∧ f'.path = "psn.toml" := by
  have hdone : litteredAnswer.1 = .ok () ∧ litteredAnswer.2.1.path = "psn.toml" := by decide +kernel
  generalize litteredAnswer = r at hdone
  obtain ⟨answer, f', b⟩ := r
  exact ⟨f', b, Prod.ext hdone.1 rfl, hdone.2⟩

theorem litteredAnswer_cleaned : ∃ f' b, litteredAnswer = (.ok (), f', b) ∧
    (∃ text' d', Machine.host.readText "psn.toml" b = .ok text' ∧
      tomlLanguage.document? text' = some d' ∧ tomlLanguage.keys d' = ["run", "paths"]) ∧
    loadOrCreate tomlLanguage Machine.host ⟨"psn.toml", {}⟩ b = (.ok (), f', b) := by
  obtain ⟨f', b, h, hpath⟩ := litteredAnswer_eq
  have hread : Machine.host.readText "psn.toml" littered = .ok litteredText := by decide +kernel
  obtain ⟨d, hdocument, -, hcleaned, hagain⟩ :=
    cleaning_is_exact Machine.hasFiles_host (fun _ _ => rfl)
      holdsToml_tomlLanguage (by decide +kernel) hread printsRest_littered h
  have hkeys := print_littered [] (List.mem_sublists.mpr (List.nil_sublist _))
  rw [hdocument, Option.map_some, Option.some.injEq, Prod.mk.injEq] at hkeys
  rw [hkeys.1] at hcleaned
  obtain ⟨text', d', htext', hdocument', hkeys', -⟩ := hcleaned ⟨"a", by decide, by decide +kernel⟩
  refine ⟨f', b, h, ⟨text', d', hpath ▸ htext', hdocument', hkeys'.trans (by decide +kernel)⟩,
    hagain _ rfl⟩

end SettingsFile

end NoiseTimeline
