import NoiseTimeline.Proofs.Text.Occurrence
import NoiseTimeline.RunLog

/-! The run log at work. It takes one entry after the other, appends text to its buffer and passes
lines on as it goes, and what it comes to is told by the entries alone. -/

namespace NoiseTimeline


/-- A log that is written to, with the lines that have reached the console. -/
structure LiveLog where
  config : LogConfig
  echo : Bool
  buffer : String := ""
  console : List ConsoleLine := []
  deriving DecidableEq

namespace LiveLog

def push (text : String) (log : LiveLog) : LiveLog := { log with buffer := log.buffer ++ text }

/-- A line goes to the echo, if there is one and the level is high enough. -/
def emit (level : LogLevel) (line : String) (log : LiveLog) : LiveLog :=
  if level.rank < log.config.level.rank then log
  else if log.echo then { log with console := log.console ++ [.echoed log.config.timestamps line] }
  else log

/-- An event is left for the trace when there is no echo. -/
def trace (level : LogLevel) (message : String) (log : LiveLog) : LiveLog :=
  if log.echo then log else { log with console := log.console ++ [.event level message] }

def record (level : LogLevel) (line : String) (log : LiveLog) : LiveLog :=
  ((log.push line).push "\n").emit level line

def emitLines (level : LogLevel) (lines : List String) (log : LiveLog) : LiveLog :=
  lines.foldl (fun log line => log.emit level line) log

/-- One operation on the log. -/
def perform (log : LiveLog) : LogEntry → LiveLog
  | .header block =>
    let log := log.push block
    let log := if block.toList.getLast? = some '\n' then log else log.push "\n"
    log.emitLines .info (Text.linesOf block)
  | .info message => (log.trace .info message).record .info (Mark.info.line message)
  | .warn message => (log.trace .warn message).record .warn (Mark.warning.line message)
  | .parseError message =>
    (log.trace .warn ("trace parse failure: " ++ message)).record .warn
      (Mark.parseError.line message)
  | .raw text => (((log.push "\n").push text).push "\n").emitLines .debug (Text.linesOf text)
  | .notice message => (log.trace .info message).emit .info (Mark.status.line message)
  | .finish elapsed => (log.push "\n").record .info (LogEntry.finishLine elapsed)

/-- The log with more in its buffer and on its console. -/
def extend (text : String) (lines : List ConsoleLine) (log : LiveLog) : LiveLog :=
  { log with buffer := log.buffer ++ text, console := log.console ++ lines }

end LiveLog

/-- The lines of a level that go to the echo. -/
def LogConfig.passed (config : LogConfig) (echo : Bool) (level : LogLevel) (lines : List String) :
    List ConsoleLine :=
  if echo = true ∧ config.level.rank ≤ level.rank then lines.map (.echoed config.timestamps) else []

/-- The event that is left for the trace. -/
def LogLevel.event (level : LogLevel) (echo : Bool) (message : String) : List ConsoleLine :=
  if echo then [] else [.event level message]

variable {config : LogConfig} {echo : Bool} {level : LogLevel} {log : LiveLog} {entry : LogEntry}
  {entries : List LogEntry} {lines lines' : List ConsoleLine} {text text' : String}

theorem LogConfig.passed_append (config : LogConfig) (echo : Bool) (level : LogLevel)
    (ls ls' : List String) :
    config.passed echo level (ls ++ ls') =
      config.passed echo level ls ++ config.passed echo level ls' := by
  rw [passed, passed, passed]
  split
  · rw [List.map_append]
  · rfl

namespace LiveLog

@[simp] theorem extend_config : (log.extend text lines).config = log.config := rfl

@[simp] theorem extend_echo : (log.extend text lines).echo = log.echo := rfl

@[simp] theorem extend_extend :
    (log.extend text lines).extend text' lines' = log.extend (text ++ text') (lines ++ lines') := by
  rw [extend, extend, extend, String.append_assoc, List.append_assoc]

theorem push_eq : log.push text = log.extend text [] := by
  rw [push, extend, List.append_nil]

theorem emit_eq (line : String) :
    log.emit level line = log.extend "" (log.config.passed log.echo level [line]) := by
  rw [emit, LogConfig.passed, extend, String.append_empty]
  by_cases hlevel : level.rank < log.config.level.rank
  · rw [if_pos hlevel, if_neg fun h => Nat.not_le.mpr hlevel h.2, List.append_nil]
  · cases hecho : log.echo
    · rw [if_neg hlevel, if_neg (by simp), if_neg (by simp), List.append_nil, ← hecho]
    · rw [if_neg hlevel, if_pos rfl, if_pos ⟨rfl, Nat.not_lt.mp hlevel⟩, ← hecho]
      rfl

theorem emitLines_eq (ls : List String) :
    log.emitLines level ls = log.extend "" (log.config.passed log.echo level ls) := by
  induction ls generalizing log with
  | nil => simp [emitLines, LogConfig.passed, extend]
  | cons line ls ih =>
    rw [emitLines, List.foldl_cons, ← emitLines, ih, emit_eq, extend_extend, extend_config,
      extend_echo, ← LogConfig.passed_append]
    rfl

theorem trace_eq (message : String) :
    log.trace level message = log.extend "" (level.event log.echo message) := by
  rw [trace, LogLevel.event, extend, String.append_empty]
  by_cases hecho : log.echo = true
  · rw [if_pos hecho, if_pos hecho, List.append_nil]
  · rw [if_neg hecho, if_neg hecho]

theorem record_eq (line : String) :
    log.record level line = log.extend (line ++ "\n")
      (log.config.passed log.echo level [line]) := by
  rw [record, push_eq, push_eq, emit_eq, extend_extend, extend_extend, String.append_empty]
  rfl

end LiveLog

/-- The event of an entry when there is no echo. -/
def LogEntry.events (entry : LogEntry) (echo : Bool) : List ConsoleLine :=
  entry.traced.elim [] fun (level, message) => level.event echo message

theorem LogConfig.shown_eq : config.shown echo entry =
    entry.events echo ++ config.passed echo entry.level entry.offered := by
  rw [shown, passed, LogEntry.events]
  cases echo with
  | true =>
    have hevents : (entry.traced.elim [] fun (level, message) => level.event true message) =
        [] := by
      cases entry.traced <;> rfl
    rw [if_pos rfl, hevents, List.nil_append]
    by_cases hlevel : entry.level.rank < config.level.rank
    · rw [if_pos hlevel, if_neg fun h => Nat.not_le.mpr hlevel h.2]
    · rw [if_neg hlevel, if_pos ⟨rfl, Nat.not_lt.mp hlevel⟩]
  | false =>
    rw [if_neg (by decide), if_neg (by simp), List.append_nil]
    cases entry.traced <;> rfl

namespace LiveLog

theorem perform_eq (log : LiveLog) (entry : LogEntry) :
    log.perform entry = log.extend entry.persisted (log.config.shown log.echo entry) := by
  rw [LogConfig.shown_eq]
  cases entry with
  | header block =>
    by_cases hclosed : block.toList.getLast? = some '\n'
    · simp [perform, LogEntry.persisted, hclosed, push_eq, emitLines_eq, LogEntry.events,
        LogEntry.traced, LogEntry.level, LogEntry.offered]
    · simp [perform, LogEntry.persisted, hclosed, push_eq, emitLines_eq, LogEntry.events,
        LogEntry.traced, LogEntry.level, LogEntry.offered]
  | raw text =>
    simp [perform, LogEntry.persisted, push_eq, emitLines_eq, LogEntry.events, LogEntry.traced,
      LogEntry.level, LogEntry.offered, String.append_assoc]
  | info message | warn message | parseError message =>
    rw [perform, trace_eq, record_eq, extend_extend, String.empty_append]
    rfl
  | notice message =>
    rw [perform, trace_eq, emit_eq, extend_extend]
    rfl
  | finish elapsed =>
    rw [perform, push_eq, record_eq, extend_extend, ← String.append_assoc]
    rfl

def run (log : LiveLog) (entries : List LogEntry) : LiveLog := entries.foldl perform log

theorem run_append (before after : List LogEntry) :
    log.run (before ++ after) = (log.run before).run after :=
  List.foldl_append

theorem run_eq (log : LiveLog) (entries : List LogEntry) :
    log.run entries = log.extend (RunLog.contents entries)
      (entries.flatMap (log.config.shown log.echo)) := by
  induction entries generalizing log with
  | nil =>
    rw [run, List.foldl_nil, extend, RunLog.contents, List.map_nil, String.join_nil,
      String.append_empty, List.flatMap_nil, List.append_nil]
  | cons entry entries ih =>
    have hcontents : RunLog.contents (entry :: entries) =
        entry.persisted ++ RunLog.contents entries := by
      rw [RunLog.contents, List.map_cons, String.join_cons, RunLog.contents]
    rw [run, List.foldl_cons, ← run, ih, perform_eq, extend_extend, extend_config, extend_echo,
      hcontents, List.flatMap_cons]

/-- A new log after some operations. -/
def after (config : LogConfig) (echo : Bool) (entries : List LogEntry) : LiveLog :=
  run { config := config, echo := echo } entries

theorem after_eq : after config echo entries =
    { config := config, echo := echo, buffer := RunLog.contents entries, console :=
  entries.flatMap (config.shown echo) } := by
  rw [after, run_eq, extend, String.empty_append, List.nil_append]

theorem after_buffer : (after config echo entries).buffer = RunLog.contents entries := by
  rw [after_eq]

theorem after_console :
    (after config echo entries).console = entries.flatMap (config.shown echo) := by
  rw [after_eq]

end LiveLog

/-- The lines that an entry emits, with their level. -/
def LogEntry.emitted (entry : LogEntry) : List (LogLevel × String) :=
  entry.offered.map (entry.level, ·)

theorem LogEntry.events_true (entry : LogEntry) : entry.events true = [] := by
  rw [events]
  cases entry.traced <;> rfl

theorem LogConfig.flatMap_shown_true (config : LogConfig) (entries : List LogEntry) :
    entries.flatMap (config.shown true) =
    ((entries.flatMap LogEntry.emitted).filter fun e => config.level.rank ≤ e.1.rank).map
      fun e => .echoed config.timestamps e.2 := by
  rw [List.filter_flatMap, List.map_flatMap]
  refine List.flatMap_congr fun entry _ => ?_
  rw [shown_eq, LogEntry.events_true, List.nil_append, passed, LogEntry.emitted]
  by_cases hlevel : config.level.rank ≤ entry.level.rank
  · simp [hlevel, List.filter_map, Function.comp_def]
  · simp [hlevel, List.filter_map, Function.comp_def]

theorem infix_of_mem_linesOf {line block : String} (h : line ∈ Text.linesOf block) :
    line.toList <:+: block.toList := by
  obtain ⟨l, hl, rfl⟩ := List.mem_map.mp h
  rw [String.toList_ofList]
  exact Text.infix_of_mem_linesFrom hl

/-- What an entry offers to the echo stands in what it persists, unless it is a notice. -/
theorem LogEntry.infix_persisted {line : String} (hnotice : ∀ message, entry ≠ .notice message)
    (hline : line ∈ entry.offered) :
    line.toList <:+: entry.persisted.toList := by
  cases entry with
  | header block =>
    have hblock : block.toList <+: (LogEntry.header block).persisted.toList := by
      rw [persisted]
      split
      · exact List.prefix_rfl
      · rw [String.toList_append]
        exact List.prefix_append _ _
    exact (infix_of_mem_linesOf hline).trans hblock.isInfix
  | raw text =>
    rw [persisted, String.toList_append, String.toList_append, List.append_assoc]
    exact (infix_of_mem_linesOf hline).trans (List.infix_append' _ _ _)
  | info message | warn message | parseError message =>
    rw [List.mem_singleton.mp hline, persisted, String.toList_append]
    exact (List.prefix_append _ _).isInfix
  | notice message => exact absurd rfl (hnotice message)
  | finish elapsed =>
    rw [List.mem_singleton.mp hline, persisted, String.toList_append, String.toList_append,
      List.append_assoc]
    exact List.infix_append' _ _ _

theorem LogConfig.mem_passed {line : ConsoleLine} {ls : List String}
    (h : line ∈ config.passed echo level ls) :
    echo = true ∧ ∃ text ∈ ls, line = .echoed config.timestamps text := by
  rw [passed] at h
  split at h
  · rename_i hpassed
    obtain ⟨text, htext, rfl⟩ := List.mem_map.mp h
    exact ⟨hpassed.1, text, htext, rfl⟩
  · cases h

theorem LogEntry.mem_events {line : ConsoleLine} (h : line ∈ entry.events echo) :
    echo = false ∧ ∃ level message, line = .event level message := by
  cases echo with
  | true =>
    rw [events_true] at h
    cases h
  | false =>
    rw [events] at h
    cases htraced : entry.traced with
    | none =>
      rw [htraced] at h
      cases h
    | some event =>
      rw [htraced] at h
      exact ⟨rfl, event.1, event.2, List.mem_singleton.mp h⟩

theorem LogConfig.mem_shown {line : ConsoleLine} (h : line ∈ config.shown echo entry) :
    (echo = true ∧ ∃ text ∈ entry.offered, line = .echoed config.timestamps text) ∨
    (echo = false ∧ ∃ level message, line = .event level message) := by
  rw [shown_eq] at h
  rcases List.mem_append.mp h with h | h
  · exact Or.inr (LogEntry.mem_events h)
  · exact Or.inl (mem_passed h)

theorem RunLog.contents_append (es es' : List LogEntry) :
    contents (es ++ es') = contents es ++ contents es' := by
  rw [contents, contents, contents, List.map_append, String.join_append]

theorem RunLog.contents_singleton (entry : LogEntry) : contents [entry] = entry.persisted := by
  rw [contents, List.map_singleton, String.join_cons, String.join_nil, String.append_empty]

namespace LiveLog

theorem infix_buffer {line : String} (hentry : entry ∈ entries)
    (hnotice : ∀ message, entry ≠ .notice message) (hline : line ∈ entry.offered) :
    line.toList <:+: (after config echo entries).buffer.toList := by
  obtain ⟨before, rest, rfl⟩ := List.append_of_mem hentry
  have hbuffer : (after config echo (before ++ entry :: rest)).buffer =
      RunLog.contents before ++ (entry.persisted ++ RunLog.contents rest) := by
    rw [after_buffer, RunLog.contents_append, ← List.singleton_append, RunLog.contents_append,
      RunLog.contents_singleton]
  rw [hbuffer, String.toList_append, String.toList_append]
  exact (LogEntry.infix_persisted hnotice hline).trans (List.infix_append' _ _ _)

/-- The buffer grows with each operation but a notice, and nothing but the operations matters to it.
The echo shows the emitted lines from its level on, fewer at a higher one, and each stands in the
buffer unless it is a notice. What is shown is echoed if there is an echo, and left for the trace
otherwise. -/
theorem buffer_grows_and_console_follows (config : LogConfig) (echo : Bool)
    (entries : List LogEntry) :
    (∀ before entry rest, entries = before ++ entry :: rest → ∃ text lines,
      after config echo (before ++ [entry]) = (after config echo before).extend text lines ∧
      ((∃ message, entry = .notice message) → text = "") ∧
      ((∀ message, entry ≠ .notice message) → ∀ stamped line, .echoed stamped line ∈ lines →
        line.toList <:+: (after config echo entries).buffer.toList)) ∧
    (∀ config' echo', (after config' echo' entries).buffer = (after config echo entries).buffer) ∧
    (∀ level, (after ⟨level, false⟩ true entries).console =
      ((entries.flatMap LogEntry.emitted).filter fun e => level.rank ≤ e.1.rank).map fun e =>
        .echoed false e.2) ∧
    (∀ level level', level.rank ≤ level'.rank →
      (after ⟨level', config.timestamps⟩ true entries).console.Sublist
        (after ⟨level, config.timestamps⟩ true entries).console) ∧
    (echo = true → ∀ line ∈ (after config echo entries).console, ∃ text,
      line = .echoed config.timestamps text) ∧
    (echo = false → ∀ line ∈ (after config echo entries).console, ∃ level message,
      line = .event level message) := by
  refine ⟨?_, ?_, ?_, ?_, ?_, ?_⟩
  · rintro before entry rest rfl
    refine ⟨entry.persisted, config.shown echo entry, ?_, ?_, ?_⟩
    · rw [after, run_append, ← after, run, List.foldl_cons, List.foldl_nil, perform_eq, after_eq]
    · rintro ⟨message, rfl⟩
      rfl
    · intro hnotice stamped line hline
      rcases LogConfig.mem_shown hline with ⟨-, text, htext, hline⟩ | ⟨-, level, message, hline⟩
      · obtain ⟨-, rfl⟩ := ConsoleLine.echoed.inj hline
        exact infix_buffer (List.mem_append_right _ List.mem_cons_self) hnotice htext
      · cases hline
  · intro config' echo'
    rw [after_buffer, after_buffer]
  · intro level
    rw [after_console, LogConfig.flatMap_shown_true]
  · intro level level' hle
    rw [after_console, after_console, LogConfig.flatMap_shown_true, LogConfig.flatMap_shown_true]
    refine (List.monotone_filter_right _ fun e he => ?_).map _
    rw [decide_eq_true_eq] at he ⊢
    exact Nat.le_trans hle he
  · rintro rfl line hline
    rw [after_console] at hline
    obtain ⟨entry, -, hline⟩ := List.mem_flatMap.mp hline
    rcases LogConfig.mem_shown hline with ⟨-, text, -, hline⟩ | ⟨hecho, -⟩
    · exact ⟨text, hline⟩
    · cases hecho
  · rintro rfl line hline
    rw [after_console] at hline
    obtain ⟨entry, -, hline⟩ := List.mem_flatMap.mp hline
    rcases LogConfig.mem_shown hline with ⟨hecho, -⟩ | ⟨-, hline⟩
    · cases hecho
    · exact hline

/-- A higher level hides the header, the warning shows at both, and the notice is echoed but not
kept. -/
theorem warning_echoed_at_both_levels :
    (after ⟨.info, false⟩ true [.header "a\r\n\nb", .notice "n", .warn "w"]).console =
      [.echoed false "a", .echoed false "", .echoed false "b", .echoed false "[status]: n",
        .echoed false "  [warning]: w"] ∧
    (after ⟨.info, false⟩ true [.header "a\r\n\nb", .notice "n", .warn "w"]).buffer =
      "a\r\n\nb\n  [warning]: w\n" ∧
    (after ⟨.warn, false⟩ true [.header "a\r\n\nb", .notice "n", .warn "w"]).console.Sublist
      (after ⟨.info, false⟩ true [.header "a\r\n\nb", .notice "n", .warn "w"]).console ∧
    (∀ line ∈ (after ⟨.info, false⟩ true [.header "a\r\n\nb", .notice "n", .warn "w"]).console,
      ∃ text, line = .echoed false text) := by
  obtain ⟨-, -, -, hraise, hecho, -⟩ :=
    buffer_grows_and_console_follows ⟨.info, false⟩ true
      [.header "a\r\n\nb", .notice "n", .warn "w"]
  exact ⟨by decide +kernel, by decide +kernel, hraise .info .warn (by decide), hecho rfl⟩

end LiveLog

end NoiseTimeline
