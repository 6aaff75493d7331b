import NoiseTimeline.ModestTool
import NoiseTimeline.Proofs.Store.Surroundings

/-! The handoff files of the tool. Each window has one of its own in the work directory,
and after a call it holds the model's text or is gone. -/

namespace NoiseTimeline

open Decimal (digitTexts)

namespace RenderRequest

variable {c : RunConfig} {w w' : Window}

theorem toList_label (c : RunConfig) (w : Window) : (ofWindow c w).label.toList =
    "noc_".toList ++
      (digitTexts c.size ++ 'x' :: (digitTexts c.size ++ '_' :: (c.property.token.toList ++
      '_' :: (digitTexts w.lower ++ '_' :: digitTexts w.upper)))) := by
  have hx : "x".toList = ['x'] := by decide
  have hbar : "_".toList = ['_'] := by decide
  unfold label ofWindow
  simp only [Text.toString_self, String.toList_append]
  rw [Decimal.toList_toString c.size, Decimal.toList_toString w.lower,
    Decimal.toList_toString w.upper, hx, hbar]
  simp only [List.append_assoc, List.cons_append, List.nil_append]

theorem isPlain_of_mem_label {d : Char} (h : d ∈ (ofWindow c w).label.toList) :
    isPlain d = true := by
  have hdigits : ∀ n, d ∈ digitTexts n → isPlain d = true :=
    fun n hd => isPlain_of_isDigit (Decimal.isDigit_of_mem_digitTexts hd)
  have htoken : c.property.token.toList.all isPlain = true := by
    cases c.property <;> decide
  have hword : "noc_".toList.all isPlain = true := by decide
  rw [toList_label] at h
  simp only [List.mem_append, List.mem_cons] at h
  rcases h with h | h | rfl | h | rfl | h | rfl | h | rfl | h
  · exact List.all_eq_true.mp hword d h
  · exact hdigits _ h
  · decide
  · exact hdigits _ h
  · decide
  · exact List.all_eq_true.mp htoken d h
  · decide
  · exact hdigits _ h
  · decide
  · exact hdigits _ h

theorem label_inj (h : (ofWindow c w).label = (ofWindow c w').label) : w = w' := by
  have hbar : ∀ s : List Char, ∀ d ∈ ('_' :: s).head?, isDigit d = false := by
    rintro s d ⟨⟩
    decide
  have hchars := congrArg String.toList h
  rw [toList_label, toList_label] at hchars
  have hsize := (List.cons.inj (List.append_cancel_left (List.append_cancel_left hchars))).2
  have hkind := (List.cons.inj (List.append_cancel_left hsize)).2
  have hbounds := (List.cons.inj (List.append_cancel_left hkind)).2
  obtain ⟨hlower, hupper⟩ := Decimal.digitTexts_append_inj (hbar _) (hbar _) hbounds
  have hupper := Decimal.digitTexts_inj (List.cons.inj hupper).2
  cases w
  cases w'
  simp_all

end RenderRequest

namespace ModestTool

variable {tool : ModestTool} {c : RunConfig} {w w' : Window}

theorem sanitized_eq {label : String} (h : ∀ d ∈ label.toList, isPlain d = true) :
    sanitized label = label := by
  have hbad : ("/\\:*?\"<>| ".toList.all fun d => !isPlain d) = true := by decide
  have hkept : ∀ d ∈ label.toList,
      (if "/\\:*?\"<>| ".toList.contains d then '_' else d) = id d := by
    intro d hd
    rw [if_neg]
    · rfl
    · intro hmem
      have hplain := List.all_eq_true.mp hbad d (by simpa using hmem)
      rw [h d hd] at hplain
      cases hplain
  rw [sanitized, List.map_congr_left hkept, List.map_id, String.ofList_toList]

/-- The name of a window's handoff file. -/
def handoffName (c : RunConfig) (w : Window) : String :=
  (RenderRequest.ofWindow c w).label ++ ".modest"

theorem handoffPath_label (tool : ModestTool) (c : RunConfig) (w : Window) :
    tool.handoffPath (RenderRequest.ofWindow c w).label =
      Path.join tool.workDir (handoffName c w) := by
  rw [handoffPath, sanitized_eq fun _ => RenderRequest.isPlain_of_mem_label, handoffName]

theorem isName_handoffName (c : RunConfig) (w : Window) : Path.IsName (handoffName c w) := by
  have hending : ".modest".toList.all isPlain = true := by decide
  apply Path.isName_of_isPlain
  · rw [handoffName, String.toList_append, RenderRequest.toList_label]
    rfl
  · intro d hd
    rw [handoffName, String.toList_append, List.mem_append] at hd
    exact hd.elim RenderRequest.isPlain_of_mem_label (List.all_eq_true.mp hending d)

theorem handoffName_inj (h : handoffName c w = handoffName c w') : w = w' := by
  have hchars := congrArg String.toList h
  rw [handoffName, handoffName, String.toList_append, String.toList_append] at hchars
  exact RenderRequest.label_inj (String.toList_inj.mp (List.append_cancel_right hchars))

variable {σ : Type}

/-- The program on a model that has been handed over. -/
def process (tool : ModestTool) (host : Host σ) (profile : Profile) (path : String) (s : σ) :
    Except IoError ProcessResult × σ :=
  let arguments := profile.arguments path
  host.execute tool.executable arguments
    (host.event .debug s!"Running: {tool.commandLine arguments}" s)

/-- The program could be started on the model, and its output has the error marker in it. -/
def keeps (tool : ModestTool) (host : Host σ) (profile : Profile) (model : Model) (s : σ) : Bool :=
  match tool.materialize host model s with
  | (.error _, _) => false
  | (.ok path, s) =>
    match (tool.process host profile path s).1 with
    | .error _ => false
    | .ok result => reportsError (combinedOutput result)

/-- The handoff file could be written, and could be removed if it was not to be kept. -/
def filesSucceed (tool : ModestTool) (host : Host σ) (profile : Profile) (model : Model)
    (s : σ) : Bool :=
  match tool.materialize host model s with
  | (.error _, _) => false
  | (.ok path, s₁) =>
    tool.keeps host profile model s ||
      (host.remove path (tool.process host profile path s₁).2).1.isOk

/-- Under this name stands a file with this text, or nothing. -/
structure Stands (t : FileTree) (here : Location) (dir name : String)
    (text? : Option String) : Prop where
  located : t.locate here (Path.join dir name) = .ok (Path.target here dir ++ [name])
  entry : ∃ executable, t.node? (Path.target here dir ++ [name]) = text?.map fun text =>
    .file text.toUTF8 executable

/-- The same for files only: a directory may have taken the free place. -/
structure Leaves (t : FileTree) (here : Location) (dir name : String)
    (text? : Option String) : Prop where
  located : t.locate here (Path.join dir name) = .ok (Path.target here dir ++ [name])
  file : (t.fileAt? (Path.target here dir ++ [name])).map Prod.fst = text?.map String.toUTF8

variable {host : Host σ} {tree : σ → FileTree} {cwd : σ → Location} {profile : Profile}
  {label content name path dir : String} {text? : Option String} {s s' : σ} {t : FileTree}
  {here : Location}

theorem Stands.undisturbed (h : Stands (tree s) (cwd s) dir name text?) (hname : Path.IsName name)
    (hu : Undisturbed tree cwd dir s s') : Stands (tree s') (cwd s') dir name text? := by
  rw [hu.here]
  refine ⟨hu.paths name _ hname h.located, ?_⟩
  rw [hu.entries]
  exact h.entry

theorem Stands.exists?_eq (h : Stands t here dir name text?) (hname : Path.IsName name) :
    t.exists? here (Path.join dir name) = text?.isSome := by
  have hwants : Path.wantsDirectory (Path.join dir name) = false := Path.wantsDirectory_join hname
  obtain ⟨executable, hentry⟩ := h.entry
  rw [FileTree.exists?, FileTree.find, h.located]
  simp only [bind, Except.bind, hentry]
  cases text? with
  | none => rfl
  | some text =>
    rw [Option.map_some, hwants]
    rfl

theorem Stands.leaves (h : Stands t here dir name text?) : Leaves t here dir name text? := by
  refine ⟨h.located, ?_⟩
  obtain ⟨executable, hentry⟩ := h.entry
  rw [FileTree.fileAt?, hentry]
  cases text? <;> rfl

theorem Leaves.spares {P : Location → Prop} (h : Leaves (tree s) (cwd s) dir name text?)
    (hname : Path.IsName name) (hspares : Spares tree cwd dir P s s') (hP : ¬ P [name]) :
    Leaves (tree s') (cwd s') dir name text? := by
  rw [hspares.here]
  exact ⟨hspares.paths name _ hname h.located,
    (congrArg (Option.map Prod.fst) (hspares.files [name] hP)).trans h.file⟩

theorem Leaves.read_iff (h : Leaves t here dir name text?) (hname : Path.IsName name)
    (bytes : ByteArray) :
    t.read here (Path.join dir name) = .ok bytes ↔ text?.map String.toUTF8 = some bytes := by
  have hread : t.read here (Path.join dir name) = .ok bytes ↔
      ∃ executable, t.node? (Path.target here dir ++ [name]) = some (.file bytes executable) := by
    constructor
    · intro hok
      unfold FileTree.read at hok
      obtain ⟨n, hfind, hok⟩ := FileTree.bind_eq_ok hok
      obtain ⟨l, hl, hnode, -⟩ := FileTree.find_eq_ok hfind
      obtain rfl := Except.ok.inj (hl.symm.trans h.located)
      cases n with
      | directory => cases hok
      | file content executable =>
        cases hok
        exact ⟨executable, hnode⟩
    · rintro ⟨executable, hnode⟩
      exact FileTree.read_eq_of_file h.located hnode (Path.wantsDirectory_join hname)
  rw [hread, ← h.file, FileTree.fileAt?]
  cases t.node? (Path.target here dir ++ [name]) with
  | none => simp
  | some n => cases n <;> simp

theorem keeps_of_materialize {model : Model} (h : tool.materialize host model s = (.ok path, s')) :
    tool.keeps host profile model s = match (tool.process host profile path s').1 with
      | .error _ => false
      | .ok result => reportsError (combinedOutput result) := by
  rw [keeps, h]

theorem invoke_of_materialize {model : Model} (h : tool.materialize host model s = (.ok path, s')) :
    tool.invoke host profile model s = match tool.process host profile path s' with
      | (.error e, s) => (.error (.spawnFailed tool.name e), discard host model path s)
      | (.ok result, s) =>
        (.ok ⟨combinedOutput result, result.exitCode⟩,
          settle host model path (combinedOutput result) s) := by
  rw [invoke, h]
  rfl

section Call

variable (hf : host.Confined tree cwd)

include hf

theorem materialize_stands (hpath : tool.handoffPath label = Path.join tool.workDir name)
    (hname : Path.IsName name)
    (h : tool.materialize host (.text label content) s = (.ok path, s')) :
    path = Path.join tool.workDir name ∧ Spares tree cwd tool.workDir (· = [name]) s s' ∧
      Stands (tree s') (cwd s') tool.workDir name (some content) := by
  rw [materialize, hpath] at h
  dsimp only at h
  have hmakes : Spares tree cwd tool.workDir (· = [name]) s
      (host.makeDirectories tool.workDir s).2 :=
    spares_of_grows (hf.cwd_makeDirectories _ _) (hf.makesDirectories _ _)
  rcases hmake : host.makeDirectories tool.workDir s with ⟨answer, s₁⟩
  rw [hmake] at h hmakes
  cases answer with
  | error e => cases h
  | ok _ =>
    dsimp only at h
    rcases hwrite : host.writeFile (Path.join tool.workDir name) content s₁ with ⟨answer, s₂⟩
    rw [hwrite] at h
    cases answer with
    | error e => cases h
    | ok _ =>
      cases h
      obtain ⟨s₃, hcreate, hwrite⟩ := Disk.andThen_eq_ok hwrite
      obtain ⟨hc, hcwd₃⟩ := hf.create hcreate
      obtain ⟨ha, hcwd⟩ := hf.write hwrite
      rw [hcwd₃] at ha hcwd
      obtain ⟨l, executable, hl, -, hdirs, -, hnode⟩ := FileTree.node?_of_append hc ha
      have htarget : l = Path.target (cwd s₁) tool.workDir ++ [name] := by
        rw [FileTree.eq_target_of_locate hl, Path.target_join _ _ hname]
      have htouches : (tree s₁).Touches (tree s') [l] := by
        refine ⟨hdirs.keeps, fun m hm => ?_⟩
        rw [hnode, if_neg (by simpa using hm)]
      refine ⟨rfl, hmakes.trans (spares_of_touches hcwd htouches fun below hbelow => ?_), ?_,
        executable, ?_⟩
      · rw [List.mem_singleton, htarget] at hbelow
        exact List.append_cancel_left hbelow
      · rw [hcwd, ← htarget]
        exact hdirs.locate_eq hl
      · rw [hcwd, ← htarget, hnode, if_pos rfl]
        rfl

theorem remove_stands (hstands : Stands (tree s) (cwd s) dir name text?)
    (h : host.remove (Path.join dir name) s = (.ok (), s')) :
    Spares tree cwd dir (· = [name]) s s' ∧ Stands (tree s') (cwd s') dir name none := by
  obtain ⟨hr, hcwd⟩ := hf.remove h
  obtain ⟨l, bytes, executable, hl, -, hroot, herase⟩ := FileTree.removeFile_eq_ok hr
  obtain rfl := Except.ok.inj (hl.symm.trans hstands.located)
  have htouches := FileTree.touches_of_removeFile hr
  rw [← FileTree.eq_target_of_locate hl] at htouches
  refine ⟨spares_of_touches hcwd htouches fun below hbelow => ?_, ?_, false, ?_⟩
  · exact List.append_cancel_left (List.mem_singleton.mp hbelow)
  · rw [hcwd]
    exact htouches.directories.locate_eq hl
  · rw [hcwd, herase, FileTree.node?_erase hroot, if_pos rfl]
    rfl

theorem discard_stands (label content : String) (hstands : Stands (tree s) (cwd s) dir name text?)
    (hok : (host.remove (Path.join dir name) s).1.isOk = true) :
    Spares tree cwd dir (· = [name]) s (discard host (.text label content) (Path.join dir name) s) ∧
      Stands (tree (discard host (.text label content) (Path.join dir name) s))
        (cwd (discard host (.text label content) (Path.join dir name) s)) dir name none := by
  rw [discard]
  rcases hremove : host.remove (Path.join dir name) s with ⟨answer, s'⟩
  rw [hremove] at hok
  cases answer with
  | error e => cases hok
  | ok _ => exact remove_stands hf hstands hremove

theorem settle_stands (label : String) (output : String) (hname : Path.IsName name)
    (hstands : Stands (tree s) (cwd s) dir name (some content))
    (hok : reportsError output = true ∨ (host.remove (Path.join dir name) s).1.isOk = true) :
    Spares tree cwd dir (· = [name]) s
      (settle host (.text label content) (Path.join dir name) output s) ∧
      Stands (tree (settle host (.text label content) (Path.join dir name) output s))
        (cwd (settle host (.text label content) (Path.join dir name) output s)) dir name
        (if reportsError output then some content else none) := by
  rw [settle]
  by_cases hreports : reportsError output = true
  · rw [if_pos hreports, if_pos hreports]
    exact ⟨(hf.undisturbed_say _ s).spares, hstands.undisturbed hname (hf.undisturbed_say _ s)⟩
  · rw [if_neg hreports, if_neg hreports]
    exact discard_stands hf label content hstands (hok.resolve_left hreports)

/-- A call of the tool on a text. It keeps the text in its handoff file exactly if the tool has
reported an error. -/
theorem invoke_stands (hpath : tool.handoffPath label = Path.join tool.workDir name)
    (hname : Path.IsName name)
    (hexecute : ∀ program arguments s,
      Undisturbed tree cwd tool.workDir s (host.execute program arguments s).2)
    (hfiles : tool.filesSucceed host profile (.text label content) s = true) :
    Spares tree cwd tool.workDir (· = [name]) s
      (tool.invoke host profile (.text label content) s).2 ∧
      Stands (tree (tool.invoke host profile (.text label content) s).2)
        (cwd (tool.invoke host profile (.text label content) s).2) tool.workDir name
        (if tool.keeps host profile (.text label content) s then some content else none) := by
  rw [filesSucceed] at hfiles
  rcases hmaterialize : tool.materialize host (.text label content) s with ⟨answer, s₁⟩
  rw [hmaterialize] at hfiles
  cases answer with
  | error e => cases hfiles
  | ok path =>
    obtain ⟨rfl, hspares, hstands⟩ := materialize_stands hf hpath hname hmaterialize
    have hprocess : Undisturbed tree cwd tool.workDir s₁
        (tool.process host profile (Path.join tool.workDir name) s₁).2 :=
      (hf.undisturbed_say _ _).trans (hexecute _ _ _)
    have hok := Bool.or_eq_true_iff.mp hfiles
    rw [invoke_of_materialize hmaterialize]
    rw [keeps_of_materialize hmaterialize] at hok ⊢
    generalize tool.process host profile (Path.join tool.workDir name) s₁ = step at *
    obtain ⟨answer, s₂⟩ := step
    have hstands₂ := hstands.undisturbed hname hprocess
    cases answer with
    | error e =>
      obtain ⟨hdiscards, hnone⟩ :=
        discard_stands hf label content hstands₂ (hok.resolve_left Bool.false_ne_true)
      exact ⟨(hspares.trans hprocess.spares).trans hdiscards, hnone⟩
    | ok result =>
      dsimp only at hok ⊢
      obtain ⟨hsettles, hkept⟩ := settle_stands hf label (combinedOutput result) hname hstands₂ hok
      exact ⟨(hspares.trans hprocess.spares).trans hsettles, hkept⟩

theorem undisturbed_call (tool : ModestTool) (template : String) (profile : Profile) (model : Model)
    (s : σ) :
    Undisturbed tree cwd dir (tool.invoke host profile model s).2
      ((tool.collaborators host template).call profile model s).2 := by
  cases profile with
  | check =>
    change Undisturbed tree cwd dir _ (tool.check host model s).2
    rw [check]
    rcases tool.invoke host .check model s with ⟨answer, s'⟩
    cases answer with
    | error e => exact .refl s'
    | ok i =>
      dsimp only
      split
      · exact hf.undisturbed_say _ s'
      · exact .refl s'
  | simulate =>
    change Undisturbed tree cwd dir _ (tool.simulate host model s).2
    rw [simulate]
    rcases tool.invoke host .simulate model s with ⟨answer, s'⟩
    cases answer <;> exact .refl s'

theorem undisturbed_ensureAvailable (tool : ModestTool) (s : σ) :
    Undisturbed tree cwd dir s (tool.ensureAvailable host s).2 := by
  rw [ensureAvailable, findExecutable]
  cases host.findExecutable tool.executable s with
  | some path => exact .refl s
  | none => exact hf.undisturbed_say _ s

end Call

end ModestTool

end NoiseTimeline
