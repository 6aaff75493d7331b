import NoiseTimeline.Proofs.Text.Lines
import NoiseTimeline.Proofs.Toml.Document

/-! Settings read back from the text of their file. Each section becomes one table, and
a reader finds just the names it asks for. -/

namespace NoiseTimeline

/-! Records read from named values. -/

namespace Slot

variable {β γ : Type} {names : List String} {fields : List (String × β)}

theorem filter_name_eq (hdistinct : (fields.map Prod.fst).Nodup) {f : String × β}
    (hf : f ∈ fields) :
    fields.filter (fun g => g.1 == f.1) = [f] := by
  obtain ⟨before, after, rfl⟩ := List.append_of_mem hf
  rw [List.map_append, List.map_cons, List.nodup_append, List.nodup_cons] at hdistinct
  obtain ⟨-, ⟨hafter, -⟩, hbefore⟩ := hdistinct
  have hnone : before.filter (fun g => g.1 == f.1) = [] := by
    rw [List.filter_eq_nil_iff]
    intro g hg
    have hne := hbefore g.1 (List.mem_map_of_mem hg) f.1 List.mem_cons_self
    simpa using hne
  have hrest : after.filter (fun g => g.1 == f.1) = [] := by
    rw [List.filter_eq_nil_iff]
    intro g hg heq
    exact hafter (beq_iff_eq.mp heq ▸ List.mem_map_of_mem hg)
  rw [List.filter_append, hnone, List.filter_cons_of_pos (by simp), hrest, List.nil_append]

theorem ofFields_eq (hdistinct : (fields.map Prod.fst).Nodup) :
    ofFields (fields.map Prod.fst) fields = some (fields.map fun f => .present f.2) := by
  have hall : ∀ found : List (String × β), (∀ f ∈ found, f ∈ fields) →
      ofFields (found.map Prod.fst) fields = some (found.map fun f => .present f.2) := by
    intro found hfound
    induction found with
    | nil => rfl
    | cons f found ih =>
      have hrest := ih fun g hg => hfound g (List.mem_cons_of_mem f hg)
      rw [ofFields] at hrest ⊢
      rw [List.map_cons, List.mapM_cons, hrest,
        filter_name_eq hdistinct (hfound f List.mem_cons_self)]
      rfl
  exact hall fields fun _ hf => hf

theorem ofFields_filter {keep : String → Bool} (h : ∀ name ∈ names, keep name = true)
    (fields : List (String × β)) :
    ofFields names (fields.filter fun f => keep f.1) = ofFields names fields := by
  have hsame : ∀ name ∈ names, (fields.filter fun f => keep f.1).filter (fun f => f.1 == name) =
      fields.filter (fun f => f.1 == name) := by
    intro name hname
    rw [List.filter_filter]
    apply List.filter_congr
    intro f _
    by_cases heq : f.1 = name
    · simp [heq, h name hname]
    · simp [heq]
  induction names with
  | nil => rfl
  | cons name names ih =>
    have hrest := ih (fun n hn => h n (List.mem_cons_of_mem name hn)) fun n hn =>
      hsame n (List.mem_cons_of_mem name hn)
    rw [ofFields] at hrest ⊢
    rw [ofFields, List.mapM_cons, List.mapM_cons, hsame name List.mem_cons_self, hrest]
    rfl

theorem orDefault_eq_some {read : β → Option γ} {v : β} {a : γ} (h : read v = some a)
    (default : γ) :
    (present v).orDefault default read = some a := by
  rw [orDefault, h]

theorem of_orDefault {P : γ → Prop} {default : γ} {read : β → Option γ} (hdefault : P default)
    (hread : ∀ v a, read v = some a → P a) {slot : Slot β} {a : γ}
    (h : slot.orDefault default read = some a) : P a := by
  cases slot with
  | present v => exact hread v a h
  | missing => exact Option.some.inj h ▸ hdefault
  | cutOff => exact Option.some.inj h ▸ hdefault

end Slot

theorem Toml.count?_lt {limit n : Nat} {v : Toml.Tree}
    (h : Toml.tomlFormat.count? limit v = some n) : n < limit := by
  cases v with
  | integer i =>
    obtain ⟨hrange, hn⟩ := Option.ite_none_right_eq_some.mp h
    cases hn
    omega
  | _ => cases h

/-! Settings as data. -/

namespace Settings

variable {s : Settings}

/-- The counters of the settings hold their numbers. -/
structure Fits (s : Settings) : Prop where
  blockSize : s.run.blockSize < wordLimit
  stride : s.run.stride < wordLimit
  threshold : s.run.threshold < halfWordLimit
  failureLimit : s.run.failureLimit < halfWordLimit

theorem fits_default : Fits {} := ⟨by decide, by decide, by decide, by decide⟩

/-- One section as an entry of the file. -/
def entry (s : Settings) (section_ : SettingsSection) : String × Toml.Tree :=
  Toml.sectionEntry section_.tableName (s.ofSection section_)

theorem nodup_tableNames : (SettingsSection.all.map SettingsSection.tableName).Nodup := by
  decide +kernel

theorem readPaths_entry (s : Settings) :
    readPaths Toml.tomlFormat (s.entry .paths).2 = some s.paths := by
  have hslots : Toml.tomlFormat.slots? ["results_folder", "plots_folder", "work_folder"]
      (s.entry .paths).2 =
      some [.present (.text s.paths.results), .present (.text s.paths.plots),
        .present (.text s.paths.work)] :=
    Slot.ofFields_eq (show ["results_folder", "plots_folder", "work_folder"].Nodup by decide)
  rw [readPaths, hslots]
  rfl

theorem readChecker_entry (s : Settings) :
    readChecker Toml.tomlFormat (s.entry .checker).2 = some s.checker := by
  have hslots : Toml.tomlFormat.slots? ["executable"] (s.entry .checker).2 =
      some [.present (.text s.checker.executable)] :=
    Slot.ofFields_eq (show ["executable"].Nodup by decide)
  rw [readChecker, hslots]
  rfl

theorem count?_integer {limit n : Nat} (h : n < limit) :
    Toml.tomlFormat.count? limit (.integer n) = some n :=
  if_pos ⟨by omega, by omega⟩

theorem readRun_entry (h : s.Fits) : readRun Toml.tomlFormat (s.entry .run).2 = some s.run := by
  have hslots : Toml.tomlFormat.slots? ["block_size", "stride", "threshold", "failure_limit"]
      (s.entry .run).2 =
      some [.present (.integer s.run.blockSize), .present (.integer s.run.stride),
        .present (.integer s.run.threshold), .present (.integer s.run.failureLimit)] :=
    Slot.ofFields_eq (show ["block_size", "stride", "threshold", "failure_limit"].Nodup by decide)
  rw [readRun, hslots]
  refine Option.bind_eq_some_iff.mpr ⟨_, rfl, ?_⟩
  refine Option.bind_eq_some_iff.mpr ⟨_, Slot.orDefault_eq_some (count?_integer h.blockSize) 50, ?_⟩
  refine Option.bind_eq_some_iff.mpr ⟨_, Slot.orDefault_eq_some (count?_integer h.stride) 1, ?_⟩
  refine Option.bind_eq_some_iff.mpr ⟨_, Slot.orDefault_eq_some (count?_integer h.threshold) 1, ?_⟩
  refine Option.bind_eq_some_iff.mpr
    ⟨_, Slot.orDefault_eq_some (count?_integer h.failureLimit) 10, ?_⟩
  rfl

theorem ofToken?_token (level : LogLevel) : LogLevel.ofToken? level.token = some level := by
  cases level <;> decide

theorem readLogging_entry (s : Settings) :
    readLogging Toml.tomlFormat (s.entry .logging).2 = some s.logging := by
  have hslots : Toml.tomlFormat.slots? ["level", "show_timestamps", "echo"] (s.entry .logging).2 =
      some [.present (.text s.logging.level.token), .present (.bool s.logging.timestamps),
        .present (.bool s.logging.echo)] :=
    Slot.ofFields_eq (show ["level", "show_timestamps", "echo"].Nodup by decide)
  have hlevel : (Toml.tomlFormat.choice? (.text s.logging.level.token)).bind LogLevel.ofToken? =
      some s.logging.level :=
    ofToken?_token s.logging.level
  rw [readLogging, hslots]
  simp only [Slot.orDefault, bind, Option.bind] at hlevel ⊢
  rw [hlevel]
  rfl

theorem read_entries (h : s.Fits) :
    read Toml.tomlFormat (.table .header (SettingsSection.all.map s.entry)) = some s := by
  have hslots : Toml.tomlFormat.slots? ["paths", "checker", "run", "logging"]
      (.table .header (SettingsSection.all.map s.entry)) =
      some [.present (s.entry .paths).2, .present (s.entry .checker).2, .present (s.entry .run).2,
        .present (s.entry .logging).2] :=
    Slot.ofFields_eq nodup_tableNames
  rw [read, hslots]
  refine Option.bind_eq_some_iff.mpr ⟨_, rfl, ?_⟩
  refine Option.bind_eq_some_iff.mpr ⟨_, Slot.orDefault_eq_some (readPaths_entry s) {}, ?_⟩
  refine Option.bind_eq_some_iff.mpr ⟨_, Slot.orDefault_eq_some (readChecker_entry s) {}, ?_⟩
  refine Option.bind_eq_some_iff.mpr ⟨_, Slot.orDefault_eq_some (readRun_entry h) {}, ?_⟩
  refine Option.bind_eq_some_iff.mpr ⟨_, Slot.orDefault_eq_some (readLogging_entry s) {}, ?_⟩
  rfl

theorem read_filter {keep : String → Bool}
    (hkeep : ∀ section_ : SettingsSection, keep section_.tableName = true) (fields : Toml.Fields) :
    read Toml.tomlFormat (.table .header (fields.filter fun f => keep f.1)) =
      read Toml.tomlFormat (.table .header fields) := by
  have hnames : ∀ name ∈ SettingsSection.all.map SettingsSection.tableName, keep name = true :=
    List.forall_mem_map.mpr fun section_ _ => hkeep section_
  have hslots : Toml.tomlFormat.slots? ["paths", "checker", "run", "logging"]
      (.table .header (fields.filter fun f => keep f.1)) =
        Toml.tomlFormat.slots? ["paths", "checker", "run", "logging"] (.table .header fields) :=
    Slot.ofFields_filter hnames fields
  rw [read, read, hslots]

theorem fits_of_read {v : Toml.Tree} (h : read Toml.tomlFormat v = some s) : s.Fits := by
  have hrun : ∀ v a, readRun Toml.tomlFormat v = some a → Fits { run := a } := by
    intro v a hread
    obtain ⟨slots, -, hread⟩ := Option.bind_eq_some_iff.mp hread
    split at hread
    · obtain ⟨blockSize, hblock, hread⟩ := Option.bind_eq_some_iff.mp hread
      obtain ⟨stride, hstride, hread⟩ := Option.bind_eq_some_iff.mp hread
      obtain ⟨threshold, hthreshold, hread⟩ := Option.bind_eq_some_iff.mp hread
      obtain ⟨failureLimit, hfailure, hread⟩ := Option.bind_eq_some_iff.mp hread
      cases hread
      exact ⟨Slot.of_orDefault (by decide) (fun _ _ => Toml.count?_lt) hblock,
        Slot.of_orDefault (by decide) (fun _ _ => Toml.count?_lt) hstride,
        Slot.of_orDefault (by decide) (fun _ _ => Toml.count?_lt) hthreshold,
        Slot.of_orDefault (by decide) (fun _ _ => Toml.count?_lt) hfailure⟩
    · cases hread
  obtain ⟨slots, -, h⟩ := Option.bind_eq_some_iff.mp h
  split at h
  · obtain ⟨paths, -, h⟩ := Option.bind_eq_some_iff.mp h
    obtain ⟨checker, -, h⟩ := Option.bind_eq_some_iff.mp h
    obtain ⟨run, hread, h⟩ := Option.bind_eq_some_iff.mp h
    obtain ⟨logging, -, h⟩ := Option.bind_eq_some_iff.mp h
    cases h
    obtain ⟨hblock, hstride, hthreshold, hfailure⟩ :=
      Slot.of_orDefault (P := fun run => Fits { run }) fits_default hrun hread
    exact ⟨hblock, hstride, hthreshold, hfailure⟩
  · cases h

/-! Settings as text. -/

theorem plain_sections : ∀ section_ ∈ SettingsSection.all,
    (∀ c ∈ section_.description.toList, Toml.isControl c = false) ∧
    Toml.IsBareKey section_.tableName.toList ∧
      (∀ name ∈ (ofSection {} section_).map Prod.fst, Toml.IsBareKey name.toList) ∧
        ((ofSection {} section_).map Prod.fst).Nodup := by
  decide +kernel

theorem mem_all (section_ : SettingsSection) : section_ ∈ SettingsSection.all := by
  cases section_ <;> decide

theorem nodup_all : SettingsSection.all.Nodup := by decide

theorem tableName_injective {a b : SettingsSection} (h : a.tableName = b.tableName) : a = b := by
  cases a <;> cases b <;> first | rfl | exact absurd h (by decide)

theorem names_ofSection (s : Settings) (section_ : SettingsSection) :
    (s.ofSection section_).map Prod.fst = (ofSection {} section_).map Prod.fst := by
  cases section_ <;> rfl

theorem fits_ofSection (h : s.Fits) (section_ : SettingsSection) :
    ∀ f ∈ s.ofSection section_, f.2.Fits := by
  have hhalf : halfWordLimit ≤ wordLimit := by decide
  cases section_ with
  | run =>
    simp only [ofSection, List.forall_mem_cons]
    exact ⟨h.blockSize, h.stride, Nat.lt_of_lt_of_le h.threshold hhalf,
      Nat.lt_of_lt_of_le h.failureLimit hhalf, nofun⟩
  | _ => simp [ofSection, SettingValue.Fits]

theorem sections_join {header : String → String}
    {fieldsText : List (String × SettingValue) → String} (h : s.Fits) {l : List SettingsSection}
    (hl : l.Nodup) :
    Toml.Sections header fieldsText
      (String.join (l.map fun section_ =>
        s!"\n# {section_.description}\n{header section_.tableName}\n" ++
          String.join ((Text.linesOf (fieldsText (s.ofSection section_))).map (· ++ "\n"))))
      (l.map s.entry) := by
  induction l with
  | nil => exact .nil
  | cons section_ l ih =>
    obtain ⟨hnew, hrest⟩ := List.nodup_cons.mp hl
    obtain ⟨hcomment, htable, hkeys, hdistinct⟩ := plain_sections section_ (mem_all section_)
    rw [← names_ofSection s] at hkeys hdistinct
    have hfresh : ∀ f ∈ l.map s.entry, f.1 ≠ section_.tableName := by
      refine List.forall_mem_map.mpr fun other hother heq => hnew ?_
      rwa [← tableName_injective heq]
    have hline : ∀ c ∈ (" " ++ section_.description).toList, Toml.isControl c = false := by
      rw [String.toList_append]
      exact List.forall_mem_cons.mpr ⟨by decide, hcomment⟩
    have htext : ∀ lines rest : String,
        s!"\n# {section_.description}\n{header section_.tableName}\n" ++ lines ++ rest =
          "\n" ++ ("#" ++ (" " ++ section_.description) ++ "\n" ++
            (header section_.tableName ++ "\n" ++ lines ++ rest)) := by
      intro lines rest
      apply String.toList_inj.mp
      simp
    rw [List.map_cons, List.map_cons, String.join_cons, htext]
    exact .blank (.comment hline (.headed htable hfresh
      (fun f hf => hkeys f.1 (List.mem_map_of_mem hf)) hdistinct (fits_ofSection h section_)
      (ih hrest)))

theorem sections_text {δ : Type} (language : SettingsLanguage δ) (h : s.Fits) :
    Toml.Sections language.sectionHeader language.fieldsText (SettingsFile.text language s)
      (SettingsSection.all.map s.entry) := by
  have hfirst : "# PSN verification driver configuration\n" =
      "#" ++ " PSN verification driver configuration" ++ "\n" := by decide +kernel
  have hsecond :
      "# This file is auto-generated. Comments are kept when unknown sections are removed.\n" =
      "#" ++ " This file is auto-generated. Comments are kept when unknown sections are removed." ++
        "\n" := by decide +kernel
  unfold SettingsFile.text
  rw [hfirst, hsecond, String.append_assoc]
  exact .comment (by decide +kernel) (.comment (by decide +kernel) (sections_join h nodup_all))

end Settings

end NoiseTimeline
