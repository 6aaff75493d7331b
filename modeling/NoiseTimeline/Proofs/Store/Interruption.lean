import NoiseTimeline.Proofs.Run.Simulation
import NoiseTimeline.Proofs.Store.Surroundings

/-! Storing results on a host whose operations may fail, watched while it lasts. A move happens as a
whole or not at all, so neither artifact is ever seen in part, and the timeline is in place last. -/

namespace NoiseTimeline

namespace FileTree

variable {t t' t'' : FileTree} {l : Location} {ls ls' : List Location} {text : String}

/-- No file differs but those at these places, and no directory is gone. -/
structure SameFiles (t t' : FileTree) (ls : List Location) : Prop where
  directories : KeepsDirectories t t'
  files : ∀ l, l ∉ ls → t'.fileAt? l = t.fileAt? l

def HoldsText (t : FileTree) (l : Location) (text : String) : Prop :=
  ∃ executable, t.fileAt? l = some (text.toUTF8, executable)

theorem SameFiles.refl (t : FileTree) : SameFiles t t ls := ⟨fun _ h => h, fun _ _ => rfl⟩

theorem SameFiles.trans (h : SameFiles t t' ls) (h' : SameFiles t' t'' ls) : SameFiles t t'' ls :=
  ⟨h.directories.trans h'.directories, fun l hl => (h'.files l hl).trans (h.files l hl)⟩

theorem SameFiles.mono (h : SameFiles t t' ls) (hls : ls ⊆ ls') : SameFiles t t' ls' :=
  ⟨h.directories, fun l hl => h.files l (mt (@hls l) hl)⟩

theorem SameFiles.holdsText (h : SameFiles t t' ls) (hl : l ∉ ls) (ht : HoldsText t l text) :
    HoldsText t' l text := by
  obtain ⟨executable, ht⟩ := ht
  exact ⟨executable, (h.files l hl).trans ht⟩

theorem Touches.sameFiles (h : Touches t t' ls) : SameFiles t t' ls :=
  ⟨h.directories, fun l hl => fileAt?_congr (h.others l hl)⟩

theorem Grows.sameFiles (h : Grows t t') : SameFiles t t' ls :=
  ⟨h.keepsDirectories, fun l _ => h.fileAt?_eq l⟩

theorem Replaced.sameFiles {origin goal : Location} {bytes : ByteArray}
    (h : Replaced t t' origin goal bytes) :
    SameFiles t t' [origin, goal] := by
  refine ⟨h.directories.keeps, fun l hl => fileAt?_congr (h.others l ?_ ?_)⟩
  · rintro rfl
    simp at hl
  · rintro rfl
    simp at hl

theorem Replaced.holdsText {origin goal : Location} (h : Replaced t t' origin goal text.toUTF8) :
    HoldsText t' goal text := by
  obtain ⟨executable, hgoal⟩ := h.content
  exact ⟨executable, by rw [fileAt?, hgoal]⟩

end FileTree

/-- A state with the trees that somebody may have come across. -/
structure Watched (σ : Type) where
  state : σ
  seen : FileTree → Prop

variable {σ α : Type}

namespace Watched

def start (tree : σ → FileTree) (s : σ) : Watched σ := ⟨s, fun t => t = tree s⟩

/-- Takes a step; `shows s s' t` tells that the tree `t` may be seen while it leads from `s` to
`s'`. -/
def watch (shows : σ → σ → FileTree → Prop) (step : σ → α × σ) (w : Watched σ) : α × Watched σ :=
  ((step w.state).1, ⟨(step w.state).2, fun t => w.seen t ∨ shows w.state (step w.state).2 t⟩)

end Watched

/-- While a file is made or written anything may be seen under its path, and directories while they
are made. A move is seen before or after. -/
def Host.watched (tree : σ → FileTree) (cwd : σ → Location) (host : Host σ) : Host (Watched σ) where
  fileExists path w := host.fileExists path w.state
  isDirectory path w := host.isDirectory path w.state
  readText path w := host.readText path w.state
  list path w := host.list path w.state
  makeDirectories path := Watched.watch (fun s _ t => (tree s).Grows t) (host.makeDirectories path)
  create path :=
    Watched.watch (fun s _ t => (tree s).Touches t [Path.target (cwd s) path]) (host.create path)
  write path bytes :=
    Watched.watch (fun s _ t => (tree s).Touches t [Path.target (cwd s) path])
      (host.write path bytes)
  sync path := Watched.watch (fun s s' t => t = tree s ∨ t = tree s') (host.sync path)
  rename source target :=
    Watched.watch (fun s s' t => t = tree s ∨ t = tree s') (host.rename source target)
  remove path := Watched.watch (fun s s' t => t = tree s ∨ t = tree s') (host.remove path)
  findExecutable tool w := host.findExecutable tool w.state
  execute tool arguments := Watched.watch (fun _ _ _ => True) (host.execute tool arguments)
  say line w := { w with state := host.say line w.state }

/-- Operations may fail half-way at the places that their paths lead to, but a move that fails has
moved nothing. -/
structure Host.MovesAtOnce (host : Host σ) (tree : σ → FileTree) (cwd : σ → Location) : Prop
    extends host.Confined tree cwd where
  unmoved : ∀ {source target s e s'}, host.rename source target s = (.error e, s') →
    tree s' = tree s

variable {host : Host σ} {tree : σ → FileTree} {cwd : σ → Location} {w w' w'' : Watched σ}
  {ls ls' : List Location}

theorem Host.watched_simulates (host : Host σ) (tree : σ → FileTree) (cwd : σ → Location) :
    (host.watched tree cwd).Simulates host fun w s => w.state = s where
  makeDirectories _ _ _ hR := hR ▸ ⟨rfl, rfl⟩
  create _ _ _ hR := hR ▸ ⟨rfl, rfl⟩
  write _ _ _ _ hR := hR ▸ ⟨rfl, rfl⟩
  sync _ _ _ hR := hR ▸ ⟨rfl, rfl⟩
  rename _ _ _ _ hR := hR ▸ ⟨rfl, rfl⟩
  say line _ _ hR := congrArg (host.say line) hR

/-- From `w` to `w'` no file was changed, nor seen changed, but those at these places. -/
structure Watched.Quiet (tree : σ → FileTree) (cwd : σ → Location) (ls : List Location)
    (w w' : Watched σ) : Prop where
  here : cwd w'.state = cwd w.state
  now : (tree w.state).SameFiles (tree w'.state) ls
  seen : ∀ t, w'.seen t → w.seen t ∨ (tree w.state).SameFiles t ls

theorem Watched.Quiet.trans (h : w.Quiet tree cwd ls w') (h' : w'.Quiet tree cwd ls w'') :
    w.Quiet tree cwd ls w'' := by
  refine ⟨h'.here.trans h.here, h.now.trans h'.now, fun t ht => ?_⟩
  obtain ht | ht := h'.seen t ht
  · exact h.seen t ht
  · exact .inr (h.now.trans ht)

theorem Disk.andThen_eq {step : Except IoError Unit × σ} {next : σ → Except IoError α × σ}
    {a : Except IoError α} {s' : σ} (h : Disk.andThen step next = (a, s')) :
    (∃ e, step = (.error e, s') ∧ a = .error e) ∨ ∃ s, step = (.ok (), s) ∧ next s = (a, s') := by
  obtain ⟨answer, s⟩ := step
  cases answer with
  | error e =>
    obtain ⟨rfl, rfl⟩ := Prod.mk.inj h
    exact .inl ⟨e, rfl, rfl⟩
  | ok _ => exact .inr ⟨s, rfl, h⟩

namespace Host.MovesAtOnce

variable {answer : Except IoError Unit} {path temporary text : String} {bytes : ByteArray}

theorem quiet_makeDirectories (hf : host.MovesAtOnce tree cwd)
    (h : (host.watched tree cwd).makeDirectories path w = (answer, w')) :
    w.Quiet tree cwd ls w' := by
  obtain ⟨rfl, rfl⟩ := Prod.mk.inj h
  exact ⟨hf.cwd_makeDirectories _ _, (hf.makesDirectories _ _).sameFiles,
    fun t ht => ht.imp_right FileTree.Grows.sameFiles⟩

theorem quiet_create (hf : host.MovesAtOnce tree cwd)
    (h : (host.watched tree cwd).create path w = (answer, w')) :
    w.Quiet tree cwd [Path.target (cwd w.state) path] w' := by
  obtain ⟨rfl, rfl⟩ := Prod.mk.inj h
  exact ⟨hf.cwd_create _ _, (hf.creates _ _).sameFiles,
    fun t ht => ht.imp_right FileTree.Touches.sameFiles⟩

theorem quiet_write (hf : host.MovesAtOnce tree cwd)
    (h : (host.watched tree cwd).write path bytes w = (answer, w')) :
    w.Quiet tree cwd [Path.target (cwd w.state) path] w' := by
  obtain ⟨rfl, rfl⟩ := Prod.mk.inj h
  exact ⟨hf.cwd_write _ _ _, (hf.writes _ _ _).sameFiles,
    fun t ht => ht.imp_right FileTree.Touches.sameFiles⟩

theorem quiet_sync (hf : host.MovesAtOnce tree cwd)
    (h : (host.watched tree cwd).sync path w = (answer, w')) :
    w.Quiet tree cwd ls w' := by
  obtain ⟨rfl, rfl⟩ := Prod.mk.inj h
  have htree : tree (host.sync path w.state).2 = tree w.state := hf.syncs _ _
  refine ⟨hf.cwd_sync _ _, htree ▸ .refl _, fun t ht => ht.imp_right ?_⟩
  rintro (rfl | rfl)
  · exact .refl _
  · exact htree ▸ .refl _

theorem quiet_rename {target : String} {e : IoError} (hf : host.MovesAtOnce tree cwd)
    (h : (host.watched tree cwd).rename path target w = (.error e, w')) :
    w.Quiet tree cwd ls w' := by
  obtain ⟨herror, rfl⟩ := Prod.mk.inj h
  have htree : tree (host.rename path target w.state).2 = tree w.state :=
    hf.unmoved (Prod.ext herror rfl)
  refine ⟨hf.cwd_rename _ _ _, htree ▸ .refl _, fun t ht => ht.imp_right ?_⟩
  rintro (rfl | rfl)
  · exact .refl _
  · exact htree ▸ .refl _

theorem quiet_replaceFile {e : IoError} (hf : host.MovesAtOnce tree cwd)
    (h : (host.watched tree cwd).replaceFile temporary path text w = (.error e, w')) :
    w.Quiet tree cwd [Path.target (cwd w.state) temporary] w' := by
  obtain ⟨_, hcreate, -⟩ | ⟨w₁, hcreate, h⟩ := Disk.andThen_eq h
  · exact hf.quiet_create hcreate
  have hcreates := hf.quiet_create hcreate
  obtain ⟨_, hwrite, -⟩ | ⟨w₂, hwrite, h⟩ := Disk.andThen_eq h
  · exact hcreates.trans (hcreates.here ▸ hf.quiet_write hwrite)
  have hwrites := hcreates.trans (hcreates.here ▸ hf.quiet_write hwrite)
  obtain ⟨_, hsync, -⟩ | ⟨w₃, hsync, hrename⟩ := Disk.andThen_eq h
  · exact hwrites.trans (hf.quiet_sync hsync)
  · exact (hwrites.trans (hf.quiet_sync hsync)).trans (hf.quiet_rename hrename)

theorem sameFiles_replaceFile {e : IoError} {s s' : σ} (hf : host.MovesAtOnce tree cwd)
    (h : host.replaceFile temporary path text s = (.error e, s')) :
    cwd s' = cwd s ∧ (tree s).SameFiles (tree s') [Path.target (cwd s) temporary] := by
  rcases hw : (host.watched tree cwd).replaceFile temporary path text (.start tree s)
    with ⟨answer, w⟩
  obtain ⟨hanswer, hstate⟩ := (host.watched_simulates tree cwd).replaceFile temporary path text
    (rfl : (Watched.start tree s).state = s)
  rw [hw] at hanswer hstate
  dsimp only [Watched.start] at hanswer hstate
  rw [h] at hanswer hstate
  dsimp only at hanswer hstate
  rw [hanswer] at hw
  obtain ⟨hcwd, hnow, -⟩ := hf.quiet_replaceFile hw
  rw [hstate] at hcwd hnow
  exact ⟨hcwd, hnow⟩

theorem replaces_replaceFile (hf : host.MovesAtOnce tree cwd)
    (h : (host.watched tree cwd).replaceFile temporary path text w = (.ok (), w')) :
    cwd w'.state = cwd w.state ∧
      (tree w.state).SameFiles (tree w'.state)
        [Path.target (cwd w.state) temporary, Path.target (cwd w.state) path] ∧
      (tree w'.state).HoldsText (Path.target (cwd w.state) path) text ∧
      ∀ t, w'.seen t → w.seen t ∨
        (tree w.state).SameFiles t [Path.target (cwd w.state) temporary] ∨ t = tree w'.state := by
  have hplain : host.replaceFile temporary path text w.state = (.ok (), w'.state) := by
    obtain ⟨hanswer, hstate⟩ :=
      (host.watched_simulates tree cwd).replaceFile temporary path text (rfl : w.state = w.state)
    rw [h] at hanswer hstate
    exact Prod.ext hanswer.symm hstate.symm
  obtain ⟨origin, goal, horigin, hgoal, -, hreplaced, hcwd⟩ := hf.replaceFile_eq_ok hplain
  rw [FileTree.eq_target_of_locate horigin, FileTree.eq_target_of_locate hgoal] at hreplaced
  refine ⟨hcwd, hreplaced.sameFiles, hreplaced.holdsText, fun t ht => ?_⟩
  obtain ⟨w₁, hcreate, h⟩ := Disk.andThen_eq_ok h
  obtain ⟨w₂, hwrite, h⟩ := Disk.andThen_eq_ok h
  obtain ⟨w₃, hsync, hrename⟩ := Disk.andThen_eq_ok h
  have hcreates := hf.quiet_create hcreate
  have hwrites := hcreates.trans (hcreates.here ▸ hf.quiet_write hwrite)
  have hsyncs := hwrites.trans (hf.quiet_sync hsync)
  obtain ⟨-, rfl⟩ := Prod.mk.inj hrename
  rcases ht with ht | rfl | rfl
  · exact (hsyncs.seen t ht).imp_right .inl
  · exact .inr (.inl hsyncs.now)
  · exact .inr (.inr rfl)

end Host.MovesAtOnce

namespace Artifacts

variable {dir log : String} {c : RunConfig} {timeline : Timeline}

theorem onPath_eq_error {path : String} {r : Except IoError α × σ} {e : StoreError} {s : σ}
    (h : onPath path r = (.error e, s)) : ∃ cause, r = (.error cause, s) ∧ e = .io path cause := by
  obtain ⟨r, s'⟩ := r
  cases r with
  | error cause =>
    cases h
    exact ⟨cause, rfl, rfl⟩
  | ok a => cases h

theorem persist_eq {answer : Except StoreError Artifacts} {s s' : σ}
    (h : persist host dir c timeline log s = (answer, s')) :
    (∃ e, host.makeDirectories dir s = (.error e, s') ∧ answer = .error (.io dir e)) ∨
    ∃ s₁, host.makeDirectories dir s = (.ok (), s₁) ∧
      ((∃ e,
        host.replaceFile (temporary (within dir c).runLog) (within dir c).runLog log s₁ =
          (.error e, s') ∧
        answer = .error (.io (within dir c).runLog e)) ∨
      ∃ s₂,
        host.replaceFile (temporary (within dir c).runLog) (within dir c).runLog log s₁ =
          (.ok (), s₂) ∧
        ((∃ e,
          host.replaceFile (temporary (within dir c).csv) (within dir c).csv
            (TimelineCsv.write timeline) s₂ = (.error e, s') ∧
          answer = .error (.io (within dir c).csv e)) ∨
        ∃ s₃,
          host.replaceFile (temporary (within dir c).csv) (within dir c).csv
            (TimelineCsv.write timeline) s₂ = (.ok (), s₃) ∧
          ∃ line, answer = .ok (within dir c) ∧ s' = host.say line s₃)) := by
  unfold persist at h
  dsimp only at h
  split at h
  · rename_i hstep
    obtain ⟨rfl, rfl⟩ := Prod.mk.inj h
    obtain ⟨cause, hmake, rfl⟩ := onPath_eq_error hstep
    exact .inl ⟨cause, hmake, rfl⟩
  rename_i s₁ hmake
  refine .inr ⟨s₁, onPath_eq_ok hmake, ?_⟩
  split at h
  · rename_i hstep
    obtain ⟨rfl, rfl⟩ := Prod.mk.inj h
    obtain ⟨cause, hlog, rfl⟩ := onPath_eq_error hstep
    exact .inl ⟨cause, hlog, rfl⟩
  rename_i s₂ hlog
  refine .inr ⟨s₂, onPath_eq_ok hlog, ?_⟩
  split at h
  · rename_i hstep
    obtain ⟨rfl, rfl⟩ := Prod.mk.inj h
    obtain ⟨cause, hcsv, rfl⟩ := onPath_eq_error hstep
    exact .inl ⟨cause, hcsv, rfl⟩
  rename_i s₃ hcsv
  obtain ⟨rfl, rfl⟩ := Prod.mk.inj h
  exact .inr ⟨s₃, onPath_eq_ok hcsv, _, rfl, rfl⟩

def places (here : Location) (a : Artifacts) : List Location :=
  [a.csv, a.runLog, temporary a.csv, temporary a.runLog].map (Path.target here)

theorem nodup_places (here : Location) (dir : String) (c : RunConfig) :
    (places here (within dir c)).Nodup := by
  have hnames : [c.csvName, c.logName, temporary c.csvName, temporary c.logName].Nodup := by
    have hlog := RunConfig.csvName_ne_logName c c
    have htemporary : temporary c.csvName ≠ temporary c.logName := fun h => hlog (temporary_inj h)
    simp [hlog, htemporary, (temporary_ne_csvName _ c).symm, (temporary_ne_logName _ c).symm]
  have hplaces : places here (within dir c) =
      [c.csvName, c.logName, temporary c.csvName, temporary c.logName].map fun name =>
        Path.target here dir ++ [name] := by
    simp only [places, within, List.map_cons, List.map_nil,
      temporary_join dir (isName_csvName c) (isName_temporary_csvName c),
      temporary_join dir (isName_logName c) (isName_temporary_logName c),
      Path.target_join _ _ (isName_csvName c), Path.target_join _ _ (isName_logName c),
      Path.target_join _ _ (isName_temporary_csvName c),
      Path.target_join _ _ (isName_temporary_logName c)]
  rw [hplaces]
  refine hnames.map fun name name' h => ?_
  simpa using h

/-- The timeline's file is as it was in `t₀`, and that of the log as it was or complete. -/
def KeepsTimeline (t₀ : FileTree) (here : Location) (a : Artifacts) (log : String)
    (t : FileTree) : Prop :=
  t.fileAt? (Path.target here a.csv) = t₀.fileAt? (Path.target here a.csv) ∧
    (t.fileAt? (Path.target here a.runLog) = t₀.fileAt? (Path.target here a.runLog) ∨
      t.HoldsText (Path.target here a.runLog) log)

/-- Storing has come no further than to the temporary log, or it has moved the log and written
beside the timeline. -/
inductive Unstored (t₀ : FileTree) (here : Location) (a : Artifacts) (log : String)
    (t : FileTree) : Prop
  | begun (h : t₀.SameFiles t [Path.target here (temporary a.runLog)])
  | logged
      (h : t₀.SameFiles t ([a.runLog, temporary a.csv, temporary a.runLog].map (Path.target here)))
      (hlog : t.HoldsText (Path.target here a.runLog) log)

structure Stored (t₀ : FileTree) (here : Location) (a : Artifacts) (csv log : String)
    (t : FileTree) : Prop where
  others : t₀.SameFiles t (places here a)
  runLog : t.HoldsText (Path.target here a.runLog) log
  csv : t.HoldsText (Path.target here a.csv) csv

variable {t₀ t : FileTree} {here : Location} {a : Artifacts} {csv : String}

theorem Unstored.sameFiles (h : Unstored t₀ here a log t) : t₀.SameFiles t (places here a) := by
  cases h with
  | begun h => exact h.mono (by simp [places])
  | logged h _ => exact h.mono (by simp [places])

theorem places_apart (h : (places here a).Nodup) :
    Path.target here a.csv ∉ [a.runLog, temporary a.csv, temporary a.runLog].map
      (Path.target here) ∧ Path.target here a.runLog ∉
        [temporary a.csv, temporary a.runLog].map (Path.target here) := by
  rw [places, List.map_cons, List.nodup_cons, List.map_cons, List.nodup_cons] at h
  exact ⟨h.1, h.2.1⟩

theorem Unstored.keepsTimeline (hplaces : (places here a).Nodup) (h : Unstored t₀ here a log t) :
    KeepsTimeline t₀ here a log t := by
  obtain ⟨hcsv, hlog⟩ := places_apart hplaces
  cases h with
  | begun h => exact ⟨(h.mono (by simp)).files _ hcsv, .inl ((h.mono (by simp)).files _ hlog)⟩
  | logged h hholds => exact ⟨h.files _ hcsv, .inr hholds⟩

/-- A watched state with the log in place, and nothing seen but what stands before the timeline
is. -/
structure HasLog (tree : σ → FileTree) (cwd : σ → Location) (s : σ) (a : Artifacts) (log : String)
    (w : Watched σ) : Prop where
  here : cwd w.state = cwd s
  now : (tree s).SameFiles (tree w.state)
    ([a.runLog, temporary a.csv, temporary a.runLog].map (Path.target (cwd s)))
  runLog : (tree w.state).HoldsText (Path.target (cwd s) a.runLog) log
  seen : ∀ t, w.seen t → Unstored (tree s) (cwd s) a log t

structure Ended (tree : σ → FileTree) (cwd : σ → Location) (s : σ) (a : Artifacts)
    (csv log : String) (answer : Except StoreError Artifacts) (w : Watched σ) : Prop where
  here : cwd w.state = cwd s
  failed : ∀ e, answer = .error e → Unstored (tree s) (cwd s) a log (tree w.state)
  seen : ∀ t, w.seen t ∨ t = tree w.state →
    Unstored (tree s) (cwd s) a log t ∨ Stored (tree s) (cwd s) a csv log t

section Stages

variable {s : σ} {e : StoreError}

theorem seen_of_quiet
    (h : (Watched.start tree s).Quiet tree cwd [Path.target (cwd s) (temporary a.runLog)] w) :
    ∀ t, w.seen t → Unstored (tree s) (cwd s) a log t := by
  intro t ht
  obtain rfl | ht := h.seen t ht
  · exact .begun (.refl _)
  · exact .begun ht

theorem ended_of_quiet
    (h : (Watched.start tree s).Quiet tree cwd [Path.target (cwd s) (temporary a.runLog)] w) :
    Ended tree cwd s a csv log (.error e) w := by
  refine ⟨h.here, fun _ _ => .begun h.now, fun t ht => .inl ?_⟩
  obtain ht | rfl := ht
  · exact seen_of_quiet h t ht
  · exact .begun h.now

theorem hasLog_of_replaceFile (hf : host.MovesAtOnce tree cwd)
    (hquiet : (Watched.start tree s).Quiet tree cwd [Path.target (cwd s) (temporary a.runLog)] w)
    (h : (host.watched tree cwd).replaceFile (temporary a.runLog) a.runLog log w = (.ok (), w')) :
    HasLog tree cwd s a log w' := by
  obtain ⟨hcwd, hsame, hlog, hseen⟩ := hf.replaces_replaceFile h
  have hhere : cwd w.state = cwd s := hquiet.here
  rw [hhere] at hcwd hsame hlog hseen
  have hnow : (tree s).SameFiles (tree w'.state)
      ([a.runLog, temporary a.csv, temporary a.runLog].map (Path.target (cwd s))) :=
    (hquiet.now.mono (by simp)).trans (hsame.mono (by simp))
  refine ⟨hcwd, hnow, hlog, fun t ht => ?_⟩
  obtain ht | ht | rfl := hseen t ht
  · exact seen_of_quiet hquiet t ht
  · exact .begun (hquiet.now.trans ht)
  · exact .logged hnow hlog

theorem HasLog.unstored (hplaces : (places (cwd s) a).Nodup) (hw : HasLog tree cwd s a log w)
    (h : (tree w.state).SameFiles t [Path.target (cwd s) (temporary a.csv)]) :
    Unstored (tree s) (cwd s) a log t := by
  obtain ⟨-, hlog⟩ := places_apart hplaces
  exact .logged (hw.now.trans (h.mono (by simp))) ((h.mono (by simp)).holdsText hlog hw.runLog)

theorem HasLog.stored (hplaces : (places (cwd s) a).Nodup) (hw : HasLog tree cwd s a log w)
    (h : (tree w.state).SameFiles t
      [Path.target (cwd s) (temporary a.csv), Path.target (cwd s) a.csv])
    (hcsv : t.HoldsText (Path.target (cwd s) a.csv) csv) : Stored (tree s) (cwd s) a csv log t := by
  obtain ⟨hcsvApart, hlogApart⟩ := places_apart hplaces
  have hlog : Path.target (cwd s) a.runLog ∉
      [Path.target (cwd s) (temporary a.csv), Path.target (cwd s) a.csv] := by
    simp only [List.map_cons, List.mem_cons, not_or] at hcsvApart hlogApart ⊢
    exact ⟨hlogApart.1, Ne.symm hcsvApart.1, List.not_mem_nil⟩
  exact ⟨(hw.now.mono (by simp [places])).trans (h.mono (by simp [places])),
    h.holdsText hlog hw.runLog, hcsv⟩

theorem HasLog.ended_of_quiet (hplaces : (places (cwd s) a).Nodup) (hw : HasLog tree cwd s a log w)
    (h : w.Quiet tree cwd [Path.target (cwd s) (temporary a.csv)] w') :
    Ended tree cwd s a csv log (.error e) w' := by
  have hnow := hw.unstored hplaces h.now
  refine ⟨h.here.trans hw.here, fun _ _ => hnow, fun t ht => .inl ?_⟩
  obtain ht | rfl := ht
  · obtain ht | ht := h.seen t ht
    · exact hw.seen t ht
    · exact hw.unstored hplaces ht
  · exact hnow

theorem HasLog.ended (hf : host.MovesAtOnce tree cwd) (hplaces : (places (cwd s) a).Nodup)
    (hw : HasLog tree cwd s a log w)
    (h : (host.watched tree cwd).replaceFile (temporary a.csv) a.csv csv w = (.ok (), w'))
    (line : ConsoleLine) :
    Ended tree cwd s a csv log (.ok a) ((host.watched tree cwd).say line w') := by
  obtain ⟨hcwd, hsame, hcsv, hseen⟩ := hf.replaces_replaceFile h
  rw [hw.here] at hcwd hsame hcsv hseen
  obtain ⟨htree, hhere⟩ := hf.say line w'.state
  have hnow : Stored (tree s) (cwd s) a csv log (tree w'.state) := hw.stored hplaces hsame hcsv
  refine ⟨hhere.trans hcwd, fun _ hok => absurd hok (by simp), fun t ht => ?_⟩
  obtain ht | rfl := ht
  · obtain ht | ht | rfl := hseen t ht
    · exact .inl (hw.seen t ht)
    · exact .inl (hw.unstored hplaces ht)
    · exact .inr hnow
  · exact .inr (htree ▸ hnow)

theorem ended_persist (hf : host.MovesAtOnce tree cwd) {answer : Except StoreError Artifacts}
    (h : persist (host.watched tree cwd) dir c timeline log (.start tree s) = (answer, w)) :
    Ended tree cwd s (within dir c) (TimelineCsv.write timeline) log answer w := by
  have hplaces := nodup_places (cwd s) dir c
  obtain ⟨e, hmake, rfl⟩ | ⟨w₁, hmake, h⟩ := persist_eq h
  · exact ended_of_quiet (hf.quiet_makeDirectories hmake)
  have hmakes : (Watched.start tree s).Quiet tree cwd
      [Path.target (cwd s) (temporary (within dir c).runLog)] w₁ :=
    hf.quiet_makeDirectories hmake
  have hhere : cwd w₁.state = cwd s := hmakes.here
  obtain ⟨e, hlog, rfl⟩ | ⟨w₂, hlog, h⟩ := h
  · exact ended_of_quiet (hmakes.trans (hhere ▸ hf.quiet_replaceFile hlog))
  have hlogged := hasLog_of_replaceFile hf hmakes hlog
  obtain ⟨e, hcsv, rfl⟩ | ⟨w₃, hcsv, line, rfl, rfl⟩ := h
  · exact hlogged.ended_of_quiet hplaces (hlogged.here ▸ hf.quiet_replaceFile hcsv)
  · exact hlogged.ended hf hplaces hcsv line

end Stages

/-- Whatever fails, an artifact is never there in part. A store that succeeds leaves both artifacts
complete; one that fails leaves the timeline as it was, and the log as it was or complete. All that
may be seen meanwhile is that, and no other file is concerned. -/
theorem persist_whole_or_as_before (hf : host.MovesAtOnce tree cwd) {s : σ}
    {answer : Except StoreError Artifacts}
    (h : persist (host.watched tree cwd) dir c timeline log (.start tree s) = (answer, w)) :
    persist host dir c timeline log s = (answer, w.state) ∧
    (∀ a, answer = .ok a → a = within dir c ∧
      (tree w.state).read (cwd s) a.csv = .ok (TimelineCsv.write timeline).toUTF8 ∧
      (tree w.state).read (cwd s) a.runLog = .ok log.toUTF8) ∧
    (∀ e, answer = .error e → KeepsTimeline (tree s) (cwd s) (within dir c) log (tree w.state)) ∧
    ∀ t, w.seen t ∨ t = tree w.state →
      (KeepsTimeline (tree s) (cwd s) (within dir c) log t ∨
        t.HoldsText (Path.target (cwd s) (within dir c).csv) (TimelineCsv.write timeline) ∧
          t.HoldsText (Path.target (cwd s) (within dir c).runLog) log) ∧
      (tree s).SameFiles t (places (cwd s) (within dir c)) := by
  have hplaces := nodup_places (cwd s) dir c
  obtain ⟨hcwd, hfailed, hseen⟩ := ended_persist hf h
  have hplain : persist host dir c timeline log s = (answer, w.state) := by
    obtain ⟨hanswer, hstate⟩ := (host.watched_simulates tree cwd).persist dir c timeline log
      (rfl : (Watched.start tree s).state = s)
    rw [h] at hanswer hstate
    exact Prod.ext hanswer.symm hstate.symm
  refine ⟨hplain, ?_, fun e he => (hfailed e he).keepsTimeline hplaces, fun t ht => ?_⟩
  · rintro a rfl
    rw [← hcwd]
    exact ⟨(persist_eq_ok hplain).1, read_persist hf.toHasFiles hplain⟩
  · obtain hunstored | hstored := hseen t ht
    · exact ⟨.inl (hunstored.keepsTimeline hplaces), hunstored.sameFiles⟩
    · exact ⟨.inr ⟨hstored.csv, hstored.runLog⟩, hstored.others⟩

end Artifacts

namespace Machine

/-- A machine that stops writing to one file half-way. -/
def cutShort (path : String) : Host Machine :=
  { Machine.host with
    write := fun p bytes m =>
      if p = path then
        (.error (.system 28),
          (m.updated (m.tree.append m.cwd p (bytes.extract 0 (bytes.size / 2)))).2)
      else Machine.host.write p bytes m }

theorem movesAtOnce_cutShort (path : String) :
    (cutShort path).MovesAtOnce Machine.tree Machine.cwd where
  toHasFiles :=
    { hasFiles_host with
      write := by
        intro p bytes m m' h
        dsimp only [cutShort] at h
        split at h
        · cases h
        · exact hasFiles_host.write h }
  fileExists := confined_host.fileExists
  remove := confined_host.remove
  cwd_makeDirectories := confined_host.cwd_makeDirectories
  cwd_create := confined_host.cwd_create
  cwd_write p bytes m := by
    dsimp only [cutShort]
    split
    · exact cwd_updated _ _
    · exact confined_host.cwd_write p bytes m
  cwd_sync := confined_host.cwd_sync
  cwd_rename := confined_host.cwd_rename
  makesDirectories := confined_host.makesDirectories
  creates := confined_host.creates
  writes p bytes m := by
    dsimp only [cutShort]
    split
    · exact touches_updated fun _ => FileTree.touches_of_append
    · exact confined_host.writes p bytes m
  syncs := confined_host.syncs
  renames := confined_host.renames
  unmoved h := (unchanged_of_updated_eq_error h).1

theorem movesAtOnce_host : Machine.host.MovesAtOnce Machine.tree Machine.cwd :=
  { confined_host with unmoved := fun h => (unchanged_of_updated_eq_error h).1 }

end Machine

namespace Artifacts

/-- No result is stored on a machine that stops while it writes the timeline. -/
theorem persist_cutShort_ne_ok {dir : String} {c : RunConfig} {t : Timeline} {log : String}
    {m m' : Machine} {a : Artifacts} :
    persist (Machine.cutShort (temporary (within dir c).csv)) dir c t log m ≠ (.ok a, m') := by
  intro h
  obtain ⟨-, m₁, m₂, m₃, -, -, hcsv, -⟩ := persist_eq_ok h
  obtain ⟨m₄, -, hrest⟩ := Disk.andThen_eq_ok hcsv
  obtain ⟨m₅, hwrite, -⟩ := Disk.andThen_eq_ok hrest
  simp only [Machine.cutShort, if_pos] at hwrite
  cases hwrite

def storedConfig : RunConfig := { size := 2, property := .irDrop }

def earlier : Machine where
  tree := ⟨[(["r"], .directory), (["r", storedConfig.csvName], .file "before".toUTF8 false),
    (["r", storedConfig.logName], .file "before".toUTF8 false)]⟩

/-- With half of the new timeline written the earlier one still stands. -/
theorem persist_cutShort : ∃ e m,
    persist (Machine.cutShort (temporary (within "r" storedConfig).csv)) "r" storedConfig
      [⟨0, .one⟩] "after" earlier =
      (.error e, m) ∧ KeepsTimeline earlier.tree [] (within "r" storedConfig) "after" m.tree := by
  rcases hw :
    persist ((Machine.cutShort (temporary (within "r" storedConfig).csv)).watched Machine.tree
      Machine.cwd) "r"
    storedConfig [⟨0, .one⟩] "after" (.start Machine.tree earlier) with ⟨answer, w⟩
  obtain ⟨hplain, -, herror, -⟩ := persist_whole_or_as_before (Machine.movesAtOnce_cutShort _) hw
  cases answer with
  | ok a => exact absurd hplain persist_cutShort_ne_ok
  | error e => exact ⟨e, w.state, hplain, herror e rfl⟩

end Artifacts

end NoiseTimeline
