import NoiseTimeline.Proofs.Number.Places
import NoiseTimeline.Proofs.Store.History

/-! Where results can be stored. Their names are never too long, so all that they need
is a directory in which none of these names is that of another directory. -/

namespace NoiseTimeline

open Decimal (digitTexts)

variable {dir : String} {c : RunConfig}

theorem isPlain.utf8Size_eq {d : Char} (h : isPlain d = true) : d.utf8Size = 1 := by
  rw [Char.utf8Size_eq_one_iff]
  simp only [isPlain, isDigit_eq, Char.isDigit, Bool.or_eq_true, Bool.and_eq_true,
    decide_eq_true_eq, beq_iff_eq] at h
  rcases h with ((⟨-, h⟩ | ⟨-, h⟩) | rfl) | rfl
  · exact UInt32.le_trans h (by decide)
  · exact UInt32.le_trans h (by decide)
  · decide
  · decide

theorem utf8ByteSize_of_isPlain {s : String} (h : ∀ d ∈ s.toList, isPlain d = true) :
    s.utf8ByteSize = s.toList.length := by
  have hsize : ∀ cs : List Char, (∀ d ∈ cs, isPlain d = true) →
      (String.ofList cs).utf8ByteSize = cs.length := by
    intro cs hcs
    induction cs with
    | nil => rfl
    | cons d cs ih =>
      have hsplit : String.ofList (d :: cs) = String.singleton d ++ String.ofList cs := by
        rw [String.singleton_eq_ofList, ← String.ofList_append, List.singleton_append]
      rw [hsplit, String.utf8ByteSize_append, String.utf8ByteSize_singleton,
        isPlain.utf8Size_eq (hcs d List.mem_cons_self),
        ih fun d' hd' => hcs d' (List.mem_cons_of_mem d hd'), List.length_cons, Nat.add_comm]
  have hlist := hsize s.toList h
  rwa [String.ofList_toList] at hlist

namespace RunConfig

theorem length_stemFront (c : RunConfig) :
    c.stemFront.length = 22 + 2 * (digitTexts c.size).length := by
  have htoken : c.property.token.toList.length = 9 := by
    cases c.property <;> decide
  have hnoc : "noc_".toList.length = 4 := by decide
  have hnoise : "_noise_".toList.length = 7 := by decide
  unfold stemFront
  simp only [List.length_append, List.length_cons, htoken, hnoc, hnoise]
  omega

theorem length_stemBack (c : RunConfig) :
    c.stemBack.length = 20 + (digitTexts c.stride).length + (digitTexts c.width).length := by
  have hstride : "_stride_".toList.length = 8 := by decide
  have hblock : "_block_size_".toList.length = 12 := by decide
  unfold stemBack
  rw [List.length_append, List.length_append, List.length_append, hstride, hblock]
  omega

theorem length_artifactStem_le (hc : c.IsValid) : c.artifactStem.toList.length ≤ 122 := by
  obtain ⟨-, -, -, -, -, hwidth⟩ := validated_eq_ok hc.validated
  have hhalf : halfWordLimit ≤ 10 ^ 10 := by decide
  have hword : wordLimit ≤ 10 ^ 20 := by decide
  have hstride : c.stride ≤ c.width := Nat.le_mul_of_pos_left _ hc.blockSize_pos
  have hs := Decimal.length_digitTexts_le (k := 10) (by decide) (Nat.lt_of_lt_of_le hc.size hhalf)
  have ht :=
    Decimal.length_digitTexts_le (k := 10) (by decide) (Nat.lt_of_lt_of_le hc.threshold hhalf)
  have hw := Decimal.length_digitTexts_le (k := 20) (by decide) (Nat.lt_of_lt_of_le hwidth hword)
  have hr := Decimal.length_digitTexts_le (k := 20) (by decide)
    (Nat.lt_of_le_of_lt hstride (Nat.lt_of_lt_of_le hwidth hword))
  have htag : thresholdTag.length = 10 := by decide
  have hlength := congrArg List.length (toList_artifactStem c)
  rw [List.length_append, List.length_append, List.length_append, length_stemFront, length_stemBack,
    htag] at hlength
  omega

theorem utf8ByteSize_artifactStem_append_le (hc : c.IsValid) {ending : String}
    (hplain : ending.toList.all isPlain = true) (hshort : ending.toList.length ≤ 13) :
    (c.artifactStem ++ ending).utf8ByteSize ≤ FileTree.nameLimit := by
  have hstem := length_artifactStem_le hc
  have hlimit : 122 + 13 ≤ FileTree.nameLimit := by decide
  rw [String.utf8ByteSize_append, utf8ByteSize_of_isPlain fun _ => isPlain_of_mem_artifactStem,
    utf8ByteSize_of_isPlain (List.all_eq_true.mp hplain)]
  omega

end RunConfig

namespace FileTree

variable {t : FileTree} {here l goal : Location} {path : String}

theorem exists_create (hl : t.locate here path = .ok l) (hwants : Path.wantsDirectory path = false)
    (hparent : t.node? l.dropLast = some .directory) (hfree : t.node? l ≠ some .directory) :
    ∃ executable, t.create here path = .ok (t.put l (.file ByteArray.empty executable)) := by
  cases hnode : t.node? l with
  | none => exact ⟨false, by simp [create, hl, hnode, hwants, hparent, bind, Except.bind]⟩
  | some n =>
    cases n with
    | directory => exact absurd hnode hfree
    | file content executable =>
      exact ⟨executable, by simp [create, hl, hnode, hwants, bind, Except.bind]⟩

theorem append_of_file {content : ByteArray} {executable : Bool} (bytes : ByteArray)
    (hl : t.locate here path = .ok l) (hnode : t.node? l = some (.file content executable)) :
    t.append here path bytes = .ok (t.put l (.file (content ++ bytes) executable)) := by
  simp [append, hl, hnode, bind, Except.bind]

theorem exists_rename {n : FileNode} {target : String} (hfind : t.find here path = .ok n)
    (hgoal : t.locate here target = .ok goal) (hwants : Path.wantsDirectory target = false)
    (hparent : t.node? goal.dropLast = some .directory) (hfree : t.node? goal ≠ some .directory) :
    ∃ t', t.rename here path target = .ok t' := by
  obtain ⟨origin, horigin, -⟩ := locate_of_find hfind
  cases hnode : t.node? goal with
  | none =>
    exact ⟨_,
      by simp [rename, hfind, horigin, hgoal, hnode, hwants, hparent, bind, Except.bind]; rfl⟩
  | some m =>
    cases m with
    | directory => exact absurd hnode hfree
    | file content executable =>
      by_cases hsame : origin = goal
      · exact ⟨t, by simp [rename, hfind, horigin, hgoal, hnode, hwants, hsame, bind, Except.bind]⟩
      · exact ⟨_,
          by simp [rename, hfind, horigin, hgoal, hnode, hwants, hsame, bind, Except.bind]; rfl⟩

theorem exists_replacement {temporary : String} {origin : Location} (bytes : ByteArray)
    (horigin : t.locate here temporary = .ok origin) (hgoal : t.locate here path = .ok goal)
    (hwants : Path.wantsDirectory temporary = false) (hwants' : Path.wantsDirectory path = false)
    (hparent : t.node? origin.dropLast = some .directory)
    (hparent' : t.node? goal.dropLast = some .directory) (hfree : t.node? origin ≠ some .directory)
    (hfree' : t.node? goal ≠ some .directory) :
    ∃ t₁ t₂ n t₃, t.create here temporary = .ok t₁ ∧ t₁.append here temporary bytes = .ok t₂ ∧
      t₂.find here temporary = .ok n ∧ t₂.rename here temporary path = .ok t₃ := by
  obtain ⟨executable, hcreate⟩ := exists_create horigin hwants hparent hfree
  have hroot : origin ≠ [] := by
    rintro rfl
    exact hfree rfl
  have hcreated : SameDirectories t (t.put origin (.file ByteArray.empty executable)) :=
    .put hroot hfree (by simp)
  have happend :=
    append_of_file bytes (hcreated.locate_eq horigin) (by rw [node?_put hroot, if_pos rfl])
  obtain ⟨origin', executable', horigin', -, hdirs, -, hnode⟩ := node?_of_append hcreate happend
  obtain rfl : origin' = origin := Except.ok.inj (horigin'.symm.trans horigin)
  have hfind := find_of_file (hdirs.locate_eq horigin) ((hnode origin').trans (if_pos rfl)) hwants
  obtain ⟨t₃, hrename⟩ :=
    exists_rename hfind (hdirs.locate_eq hgoal) hwants' ((hdirs _).mp hparent')
      fun h => hfree' ((hdirs _).mpr h)
  exact ⟨_, _, _, t₃, hcreate, happend, hfind, hrename⟩

theorem makeDirectories_of_none (hl : t.locate here path = .ok l) (hnone : t.node? l = none)
    (hparent : t.node? l.dropLast = some .directory) :
    t.makeDirectories here path = (t.put l .directory, .ok ()) := by
  have hmake : t.makeDirectory here path = .ok (t.put l .directory) := by
    simp [makeDirectory, hl, hnone, hparent, bind, Except.bind]
  rw [makeDirectories, makeDirectoriesWithin, if_neg (by simpa using (locate_eq_ok hl).1), hmake]

end FileTree

/-- The files that come into being while a result is stored. -/
inductive StoredFile where
  | csv
  | log
  | csvTemporary
  | logTemporary
  deriving DecidableEq

namespace StoredFile

def name : StoredFile → RunConfig → String
  | .csv, c => c.csvName
  | .log, c => c.logName
  | .csvTemporary, c => Artifacts.temporary c.csvName
  | .logTemporary, c => Artifacts.temporary c.logName

def ending : StoredFile → String
  | .csv => ".csv"
  | .log => ".time.txt"
  | .csvTemporary => ".csv.tmp"
  | .logTemporary => ".time.txt.tmp"

theorem name_eq (f : StoredFile) (c : RunConfig) : f.name c = c.artifactStem ++ f.ending := by
  cases f with
  | csv => rfl
  | log => rfl
  | csvTemporary => exact String.append_assoc
  | logTemporary => exact String.append_assoc

theorem isName_name (f : StoredFile) (c : RunConfig) : Path.IsName (f.name c) := by
  cases f with
  | csv => exact Artifacts.isName_csvName c
  | log => exact Artifacts.isName_logName c
  | csvTemporary => exact Artifacts.isName_temporary_csvName c
  | logTemporary => exact Artifacts.isName_temporary_logName c

theorem utf8ByteSize_name_le (f : StoredFile) (hc : c.IsValid) :
    (f.name c).utf8ByteSize ≤ FileTree.nameLimit := by
  rw [name_eq]
  refine RunConfig.utf8ByteSize_artifactStem_append_le hc ?_ ?_ <;> cases f <;> decide

end StoredFile

namespace Machine

variable {m m' : Machine} {l : Location}

/-- The directory is there, and in it no directory has a name that the files of the configuration
take. -/
structure RoomAt (m : Machine) (dir : String) (l : Location) (c : RunConfig) : Prop where
  locate : m.tree.locate m.cwd dir = .ok l
  directory : m.tree.node? l = some .directory
  free : ∀ f : StoredFile, m.tree.node? (l ++ [f.name c]) ≠ some .directory

/-- The directory is there, or there is a place for it. -/
def HasRoom (dir : String) (c : RunConfig) (m : Machine) : Prop :=
  ∃ l, m.tree.locate m.cwd dir = .ok l ∧
    (m.tree.node? l = some .directory ∨
      m.tree.node? l = none ∧ m.tree.node? l.dropLast = some .directory) ∧
    ∀ f : StoredFile, m.tree.node? (l ++ [f.name c]) ≠ some .directory

theorem RoomAt.hasRoom (h : m.RoomAt dir l c) : m.HasRoom dir c :=
  ⟨l, h.locate, Or.inl h.directory, h.free⟩

theorem hasRoom_of_shallow (hl : m.tree.locate m.cwd dir = .ok l)
    (hplace : m.tree.node? l = some .directory ∨
      m.tree.node? l = none ∧ m.tree.node? l.dropLast = some .directory)
    (hshallow : ∀ e ∈ m.tree.entries, e.2 = .directory → e.1.length ≠ l.length + 1) : m.HasRoom
      dir c := by
  refine ⟨l, hl, hplace, fun f hf => ?_⟩
  rw [FileTree.node?, if_neg (by simp)] at hf
  obtain ⟨before, after, hsplit, -⟩ := List.lookup_eq_some_iff.mp hf
  exact hshallow _ (hsplit ▸ List.mem_append_right before List.mem_cons_self) rfl (by simp)

theorem RoomAt.of_sameDirectories (h : m.RoomAt dir l c) (hdirs : m.tree.SameDirectories m'.tree)
    (hcwd : m'.cwd = m.cwd) :
    m'.RoomAt dir l c := by
  refine ⟨?_, (hdirs l).mp h.directory, fun f hf => h.free f ((hdirs _).mpr hf)⟩
  rw [hcwd]
  exact hdirs.locate_eq h.locate

theorem RoomAt.locate_join (h : m.RoomAt dir l c) (hc : c.IsValid) (f : StoredFile) :
    m.tree.locate m.cwd (Path.join dir (f.name c)) = .ok (l ++ [f.name c]) := by
  rw [FileTree.locate_join h.locate h.directory (f.isName_name c),
    if_neg (Nat.not_lt.mpr (f.utf8ByteSize_name_le hc))]

theorem RoomAt.exists_replaceFile (h : m.RoomAt dir l c) (hc : c.IsValid) {f g : StoredFile}
    (hg : g.name c = Artifacts.temporary (f.name c)) (text : String) :
    ∃ m', host.replaceFile (Artifacts.temporary (Path.join dir (f.name c)))
        (Path.join dir (f.name c)) text m = (.ok (), m') ∧
      m.tree.SameDirectories m'.tree ∧ m'.cwd = m.cwd := by
  have hname := f.isName_name c
  have htemporary : Path.IsName (Artifacts.temporary (f.name c)) := hg ▸ g.isName_name c
  have hparent : ∀ name : String, m.tree.node? (l ++ [name]).dropLast = some .directory := by
    intro name
    rw [List.dropLast_concat]
    exact h.directory
  obtain ⟨t₁, t₂, n, t₃, hcreate, happend, hfind, hrename⟩ :=
    FileTree.exists_replacement text.toUTF8 (h.locate_join hc g) (h.locate_join hc f)
      (Path.wantsDirectory_join (g.isName_name c)) (Path.wantsDirectory_join hname)
      (hparent _) (hparent _) (h.free g) (h.free f)
  have hreplace : host.replaceFile (Artifacts.temporary (Path.join dir (f.name c)))
      (Path.join dir (f.name c)) text m = (.ok (), { m with tree := t₃ }) := by
    rw [Artifacts.temporary_join dir hname htemporary, ← hg]
    simp only [Disk.replaceFile, host, disk, hcreate, updated, Disk.andThen, happend, hfind,
      Except.map, hrename]
  obtain ⟨hreplaced, hcwd, -⟩ :=
    Artifacts.replaceFile_join hasFiles_host hname htemporary h.locate h.directory hreplace
  exact ⟨_, hreplace, hreplaced.directories, hcwd⟩

theorem HasRoom.exists_makeDirectories (h : m.HasRoom dir c) :
    ∃ m' l, host.makeDirectories dir m = (.ok (), m') ∧ ∀ d, m.HasRoom dir d →
    m'.RoomAt dir l d := by
  obtain ⟨l, hl, hplace, -⟩ := h
  have hfree : ∀ d, m.HasRoom dir d →
      ∀ f : StoredFile, m.tree.node? (l ++ [f.name d]) ≠ some .directory := by
    rintro d ⟨l', hl', -, hfree⟩
    obtain rfl : l' = l := Except.ok.inj (hl'.symm.trans hl)
    exact hfree
  rcases hplace with hdirectory | ⟨hnone, hparent⟩
  · have hmake := FileTree.makeDirectories_of_find (FileTree.find_of_directory hl hdirectory)
    exact ⟨m, l, by simp only [host, disk, hmake], fun d hd => ⟨hl, hdirectory, hfree d hd⟩⟩
  · have hroot : l ≠ [] := by
      rintro rfl
      cases hnone
    have hmake := FileTree.makeDirectories_of_none hl hnone hparent
    have hkeeps : m.tree.KeepsDirectories (m.tree.put l .directory) := by
      intro l' hl'
      rw [FileTree.node?_put hroot]
      split
      · rfl
      · exact hl'
    refine ⟨{ m with tree := m.tree.put l .directory }, l, by simp only [host, disk, hmake],
      fun d hd => ?_⟩
    refine ⟨hkeeps.locate_eq hl, ?_, fun f => ?_⟩
    · rw [FileTree.node?_put hroot, if_pos rfl]
    · rw [FileTree.node?_put hroot, if_neg (by simp)]
      exact hfree d hd f

end Machine

namespace Artifacts

variable {m : Machine} {ks : List Result}

/-- On a machine with room a result is stored, and there is as much room after it. -/
theorem exists_persist (hc : c.IsValid) (h : m.HasRoom dir c) (t : Timeline) (log : String) :
    ∃ m', persist Machine.host dir c t log m = (.ok (within dir c), m') ∧ ∀ d, m.HasRoom dir d →
    m'.HasRoom dir d := by
  obtain ⟨m₁, l, hmake, hroom₁⟩ := h.exists_makeDirectories
  obtain ⟨m₂, hlog, hdirs₂, hcwd₂⟩ :=
    (hroom₁ c h).exists_replaceFile hc (f := .log) (g := .logTemporary) rfl log
  have hroom₂ : ∀ d, m.HasRoom dir d → m₂.RoomAt dir l d :=
    fun d hd => (hroom₁ d hd).of_sameDirectories hdirs₂ hcwd₂
  obtain ⟨m₃, hcsv, hdirs₃, hcwd₃⟩ :=
    (hroom₂ c h).exists_replaceFile hc (f := .csv) (g := .csvTemporary) rfl (TimelineCsv.write t)
  dsimp only [StoredFile.name] at hlog hcsv
  refine ⟨Machine.host.event .info s!"Wrote {t.length} samples to {Path.join dir c.csvName}"
    m₃, ?_, ?_⟩
  · simp only [persist, within_runLog, within_csv, hmake, onPath, Except.mapError, hlog, hcsv]
  · intro d hd
    exact ((hroom₂ d hd).of_sameDirectories hdirs₃ hcwd₃).hasRoom

theorem exists_allStored (hks : ∀ k ∈ ks, k.config.IsValid ∧ m.HasRoom dir k.config) :
    ∃ m', AllStored Machine.host dir ks m m' := by
  induction ks generalizing m with
  | nil => exact ⟨m, rfl⟩
  | cons k ks ih =>
    obtain ⟨hvalid, hroom⟩ := hks k List.mem_cons_self
    obtain ⟨m₁, hpersist, hkeeps⟩ := exists_persist hvalid hroom k.timeline k.log
    obtain ⟨m', hrest⟩ := ih fun k' hk' => ⟨(hks k' (List.mem_cons_of_mem k hk')).1,
      hkeeps _ (hks k' (List.mem_cons_of_mem k hk')).2⟩
    exact ⟨m', _, m₁, hpersist, hrest⟩

end Artifacts

end NoiseTimeline
