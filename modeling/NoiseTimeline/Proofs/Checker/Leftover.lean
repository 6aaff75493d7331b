import NoiseTimeline.Proofs.Checker.Verdict

/-! What is reported as kept after a call. The report looks at what stands at the path of the
handoff file, so it is right about the call unless the file could not be written or could not be
removed. -/

namespace NoiseTimeline.ModestTool

variable {σ : Type} {tool : ModestTool} {host : Host σ} {tree : σ → FileTree} {cwd : σ → Location}
  {profile : Profile} {model : Model} {label content name path dir : String} {text? : Option String}
  {s s' s₁ : σ} {answer : Except CheckerError String}

/-- What the call could not write over, or its own file where that could not be removed. -/
def leavesBehind (tool : ModestTool) (host : Host σ) (profile : Profile) (label content : String)
    (s : σ) : Bool :=
  match tool.materialize host (.text label content) s with
  | (.error _, s₁) => host.fileExists (tool.handoffPath label) s₁
  | (.ok path, s₁) => !tool.keeps host profile (.text label content) s &&
      !(host.remove path (tool.process host profile path s₁).2).1.isOk

theorem leavesBehind_of_materialize
    (h : tool.materialize host (.text label content) s = (.ok path, s₁)) :
    tool.leavesBehind host profile label content s =
      (!tool.keeps host profile (.text label content) s &&
      !(host.remove path (tool.process host profile path s₁).2).1.isOk) := by
  rw [leavesBehind, h]

theorem keptModel_eq_some_iff {p : String} :
    tool.keptModel host.toDisk (.text label content) s = some p ↔
    p = tool.handoffPath label ∧ host.fileExists (tool.handoffPath label) s = true := by
  rw [keptModel]
  split
  · rename_i hpresent
    simp [hpresent, eq_comm]
  · rename_i hmissing
    simp [hmissing]

theorem slash_not_mem_sanitized (label : String) : '/' ∉ (sanitized label).toList := by
  rw [sanitized, String.toList_ofList, List.mem_map]
  rintro ⟨c, -, hc⟩
  split at hc
  · cases hc
  · rename_i hplain
    rw [hc] at hplain
    exact hplain (by decide)

theorem isName_of_nul_not_mem (h : '\x00' ∉ (tool.handoffPath label).toList) :
    Path.IsName (sanitized label ++ ".modest") := by
  have hending : ".modest".toList = ['.', 'm', 'o', 'd', 'e', 's', 't'] := by decide
  have hlast : (sanitized label ++ ".modest").toList.getLast? = some 't' := by
    rw [String.toList_append, hending]
    simp
  have hnamed : ∀ bad : String, bad.toList.getLast? ≠ some 't' →
      sanitized label ++ ".modest" ≠ bad := by
    rintro bad hbad rfl
    exact hbad hlast
  refine ⟨hnamed _ (by decide), hnamed _ (by decide), hnamed _ (by decide), ?_, fun hnul => h ?_⟩
  · rw [String.toList_append, List.mem_append, not_or, hending]
    exact ⟨slash_not_mem_sanitized label, by decide⟩
  · rw [handoffPath, Path.join]
    split
    · exact hnul
    · split
      · rw [String.toList_append]
        exact List.mem_append_right _ hnul
      · rw [String.toList_append]
        exact List.mem_append_right _ hnul

section Call

variable (hf : host.Confined tree cwd)
  (hunremoved : ∀ {path e a b}, host.remove path a = (.error e, b) →
    tree b = tree a ∧ cwd b = cwd a)

include hf

theorem isName_of_materialize (h : tool.materialize host (.text label content) s = (.ok path, s')) :
    Path.IsName (sanitized label ++ ".modest") := by
  rw [materialize] at h
  dsimp only at h
  split at h
  · cases h
  · split at h
    · cases h
    · rename_i s₂ hwrite
      obtain ⟨s₃, hcreate, hwrite⟩ := Disk.andThen_eq_ok hwrite
      obtain ⟨hc, hcwd⟩ := hf.create hcreate
      obtain ⟨ha, -⟩ := hf.write hwrite
      rw [hcwd] at ha
      obtain ⟨l, -, hl, -⟩ := FileTree.node?_of_append hc ha
      exact isName_of_nul_not_mem (FileTree.locate_eq_ok hl).2.1

include hunremoved

theorem discard_stands_unless (label content : String) (hname : Path.IsName name)
    (hstands : Stands (tree s) (cwd s) dir name text?) :
    Stands (tree (discard host (.text label content) (Path.join dir name) s))
      (cwd (discard host (.text label content) (Path.join dir name) s)) dir name
      (if !(host.remove (Path.join dir name) s).1.isOk then text? else none) := by
  rw [discard]
  rcases hremove : host.remove (Path.join dir name) s with ⟨answer, s'⟩
  cases answer with
  | ok _ => exact (remove_stands hf hstands hremove).2
  | error e =>
    obtain ⟨htree, hcwd⟩ := hunremoved hremove
    exact (hstands.undisturbed hname (.of_eq htree hcwd)).undisturbed hname
      (hf.undisturbed_say _ s')

theorem settle_stands_unless (label content output : String) (hname : Path.IsName name)
    (hstands : Stands (tree s) (cwd s) dir name text?) :
    Stands (tree (settle host (.text label content) (Path.join dir name) output s))
      (cwd (settle host (.text label content) (Path.join dir name) output s)) dir name
      (if reportsError output || !(host.remove (Path.join dir name) s).1.isOk then text?
        else none) := by
  rw [settle]
  by_cases hreports : reportsError output = true
  · rw [if_pos hreports, hreports, Bool.true_or, if_pos rfl]
    exact hstands.undisturbed hname (hf.undisturbed_say _ s)
  · rw [if_neg hreports, Bool.eq_false_iff.mpr hreports, Bool.false_or]
    exact discard_stands_unless hf hunremoved label content hname hstands

theorem invoke_stands_unless (profile : Profile)
    (hexecute : ∀ program arguments s,
      Undisturbed tree cwd tool.workDir s (host.execute program arguments s).2)
    (hwritten : tool.materialize host (.text label content) s = (.ok path, s₁)) :
    Stands (tree (tool.invoke host profile (.text label content) s).2)
      (cwd (tool.invoke host profile (.text label content) s).2) tool.workDir
      (sanitized label ++ ".modest")
      (if tool.keeps host profile (.text label content) s ||
        tool.leavesBehind host profile label content s then some content else none) := by
  have hname := isName_of_materialize hf hwritten
  obtain ⟨rfl, -, hstands⟩ := materialize_stands hf rfl hname hwritten
  have hprocess : Undisturbed tree cwd tool.workDir s₁
      (tool.process host profile (Path.join tool.workDir (sanitized label ++ ".modest")) s₁).2 :=
    (hf.undisturbed_say _ _).trans (hexecute _ _ _)
  rw [invoke_of_materialize hwritten, leavesBehind_of_materialize hwritten,
    keeps_of_materialize hwritten]
  generalize tool.process host profile (Path.join tool.workDir (sanitized label ++ ".modest")) s₁ =
    step at *
  obtain ⟨answer, s₂⟩ := step
  dsimp only at hprocess ⊢
  have hstands₂ := hstands.undisturbed hname hprocess
  cases answer with
  | error e =>
    rw [Bool.false_or, Bool.not_false, Bool.true_and]
    exact discard_stands_unless hf hunremoved label content hname hstands₂
  | ok result =>
    have hsame : ∀ a b : Bool, (a || (!a && b)) = (a || b) := by decide
    dsimp only
    rw [hsame]
    exact settle_stands_unless hf hunremoved label content (combinedOutput result) hname hstands₂

/-- A call reports its handoff file just if its program ran and the output reports an error, or the
file's path could not be cleared: something else kept the file from being written, or it could not
be removed. Once it has been written, what is reported has the text of this call, whatever was there
before. -/
theorem reported_just_if_kept_or_left
    (hexecute : ∀ program arguments s,
      Undisturbed tree cwd tool.workDir s (host.execute program arguments s).2)
    (hcall : tool.call host profile (.text label content) s = (answer, s')) :
    (∀ p, tool.keptModel host.toDisk (.text label content) s' = some p ↔
      p = tool.handoffPath label ∧ (tool.keeps host profile (.text label content) s = true ∨
        tool.leavesBehind host profile label content s = true)) ∧
    (∀ p s₁, tool.materialize host (.text label content) s = (.ok p, s₁) →
      ∀ q, tool.keptModel host.toDisk (.text label content) s' = some q →
        host.readText q s' = .ok content) := by
  obtain ⟨htree, hcwd⟩ := call_files hf tool profile (.text label content) s
  rw [hcall] at htree hcwd
  dsimp only at htree hcwd
  simp only [keptModel_eq_some_iff, hf.fileExists, htree, hcwd]
  rcases hmaterialize : tool.materialize host (.text label content) s with ⟨written, s₁⟩
  cases written with
  | error e =>
    have hinvoke : tool.invoke host profile (.text label content) s = (.error e, s₁) := by
      rw [invoke, hmaterialize]
    refine ⟨fun p => ?_, fun _ _ hwritten => by cases hwritten⟩
    rw [hinvoke, keeps, leavesBehind, hmaterialize, ← hf.fileExists]
    simp
  | ok path =>
    have hname := isName_of_materialize hf hmaterialize
    have hstands := invoke_stands_unless hf hunremoved profile hexecute hmaterialize
    have hpresent := hstands.exists?_eq hname
    refine ⟨fun p => and_congr_right fun _ => ?_, fun _ _ _ q hreported => ?_⟩
    · rw [handoffPath, hpresent, ← Bool.or_eq_true]
      split <;> simp_all
    · obtain ⟨rfl, hthere⟩ := hreported
      rw [handoffPath, hpresent] at hthere
      split at hthere
      · rename_i hkept
        rw [if_pos hkept] at hstands
        obtain ⟨executable, hnode⟩ := hstands.entry
        rw [hf.readText, htree, hcwd]
        exact FileTree.readText_of_file hstands.located hnode (Path.wantsDirectory_join hname)
      · cases hthere

end Call

/-- A file from before stands at the path of the handoff file. -/
def stale : Machine where
  tree := ⟨[(["w"], .directory), (["w", "2x2_0_49.modest"], .file "earlier model".toUTF8 false)]⟩

def staleAnswer : Except CheckerError String × Machine :=
  splitTool.call splitHost .simulate splitModel stale

theorem staleAnswer_reported :
    splitTool.keptModel splitHost.toDisk splitModel staleAnswer.2 = some "w/2x2_0_49.modest" ∧
      splitHost.readText "w/2x2_0_49.modest" staleAnswer.2 = .ok "model" := by
  obtain ⟨hreported, hcurrent⟩ :=
    reported_just_if_kept_or_left confined_splitHost Machine.unchanged_of_updated_eq_error
      (fun _ _ _ => .refl _)
      (rfl : splitTool.call splitHost .simulate splitModel stale =
        (staleAnswer.1, staleAnswer.2))
  have hkept : splitTool.keptModel splitHost.toDisk splitModel staleAnswer.2 =
      some "w/2x2_0_49.modest" :=
    (hreported _).mpr ⟨by decide, .inl (by decide +kernel)⟩
  have hpath : (splitTool.materialize splitHost splitModel stale).1 = .ok "w/2x2_0_49.modest" := by
    decide +kernel
  rcases hwritten : splitTool.materialize splitHost splitModel stale with ⟨path, s₁⟩
  rw [hwritten] at hpath
  dsimp only at hpath
  rw [hpath] at hwritten
  exact ⟨hkept, hcurrent _ _ hwritten _ hkept⟩

/-- A directory stands there. -/
def occupied : Machine where
  tree := ⟨[(["w"], .directory), (["w", "2x2_0_49.modest"], .directory)]⟩

/-- The call fails before the program is started, and the directory is reported as kept. -/
theorem occupied_is_reported :
    (splitTool.call splitHost .simulate splitModel occupied).1 =
      .error (.io "writing model handoff file" (.system SystemError.isDirectory)) ∧
    ¬ ∀ m : Machine, (splitTool.keptModel splitHost.toDisk splitModel
      (splitTool.call splitHost .simulate splitModel m).2).isSome = true ↔
        splitTool.keeps splitHost .simulate splitModel m = true := by
  refine ⟨by decide +kernel, fun hkept => ?_⟩
  have hkeeps : splitTool.keeps splitHost .simulate splitModel occupied = true :=
    (hkept occupied).mp (by decide +kernel)
  exact absurd hkeeps (by decide +kernel)

end NoiseTimeline.ModestTool
