import NoiseTimeline.Elapsed
import NoiseTimeline.Text.Lines
import NoiseTimeline.Timeline
import NoiseTimeline.Window

/-!
The run log: a list of entries. An entry decides three things by itself: what it appends to the
persisted text, which lines it offers to the echo and at which level, and which events it leaves for
the trace. The console settings only choose between echo and trace and cut off levels; the persisted
text ignores them.
-/

namespace NoiseTimeline

inductive LogLevel where
  | trace
  | debug
  | info
  | warn
  | error
  deriving DecidableEq

namespace LogLevel

def all : List LogLevel := [.trace, .debug, .info, .warn, .error]

def rank : LogLevel → Nat
  | .trace => 0
  | .debug => 1
  | .info => 2
  | .warn => 3
  | .error => 4

def token : LogLevel → String
  | .trace => "trace"
  | .debug => "debug"
  | .info => "info"
  | .warn => "warn"
  | .error => "error"

def title : LogLevel → String
  | .trace => "TRACE"
  | .debug => "DEBUG"
  | .info => "INFO"
  | .warn => "WARN"
  | .error => "ERROR"

def ofToken? (s : String) : Option LogLevel := all.find? fun l => l.token == s

end LogLevel

inductive Mark where
  | info
  | warning
  | parseError
  | status
  deriving DecidableEq

def Mark.line (m : Mark) (message : String) : String :=
  match m with
  | .info => "  [info]: " ++ message
  | .warning => "  [warning]: " ++ message
  | .parseError => "  [parse-error]: " ++ message
  | .status => "[status]: " ++ message

inductive LogEntry where
  /-- A block of text as it is. -/
  | header (block : String)
  | info (message : String)
  | warn (message : String)
  | parseError (message : String)
  | raw (text : String)
  /-- A status line that is not persisted. -/
  | notice (message : String)
  | finish (elapsed : Elapsed)
  deriving DecidableEq

namespace LogEntry

def finishLine (elapsed : Elapsed) : String := "Total elapsed time: " ++ elapsed.text

def persisted : LogEntry → String
  | .header block => if block.toList.getLast? = some '\n' then block else block ++ "\n"
  | .info message => Mark.info.line message ++ "\n"
  | .warn message => Mark.warning.line message ++ "\n"
  | .parseError message => Mark.parseError.line message ++ "\n"
  | .raw text => "\n" ++ text ++ "\n"
  | .notice _ => ""
  | .finish elapsed => "\n" ++ finishLine elapsed ++ "\n"

/-- The level at which the entry is echoed; checker output is for debugging only. -/
def level : LogEntry → LogLevel
  | .header _ | .info _ | .notice _ | .finish _ => .info
  | .warn _ | .parseError _ => .warn
  | .raw _ => .debug

def offered : LogEntry → List String
  | .header block => Text.linesOf block
  | .info message => [Mark.info.line message]
  | .warn message => [Mark.warning.line message]
  | .parseError message => [Mark.parseError.line message]
  | .raw text => Text.linesOf text
  | .notice message => [Mark.status.line message]
  | .finish elapsed => [finishLine elapsed]

def traced : LogEntry → Option (LogLevel × String)
  | .info message => some (.info, message)
  | .warn message => some (.warn, message)
  | .parseError message => some (.warn, "trace parse failure: " ++ message)
  | .notice message => some (.info, message)
  | .header _ | .raw _ | .finish _ => none

end LogEntry

def RunLog.contents (entries : List LogEntry) : String :=
  String.join (entries.map LogEntry.persisted)

structure LogConfig where
  level : LogLevel := .info
  timestamps : Bool := false
  deriving DecidableEq

/-- One line that reaches the user: an event of the trace, an echoed line, stamped with the time or
not, or a line of a command's answer. -/
inductive ConsoleLine where
  | event (level : LogLevel) (message : String)
  | echoed (stamped : Bool) (line : String)
  | answer (line : String)
  deriving DecidableEq

def ConsoleLine.output? (time : String) : ConsoleLine → Option String
  | .event _ _ => none
  | .echoed stamped line => some (if stamped then s!"[{time}] {line}" else line)
  | .answer line => some line

/-- With an echo an entry's lines of sufficient level are echoed, without one its event is
traced. -/
def LogConfig.shown (config : LogConfig) (echo : Bool) (entry : LogEntry) : List ConsoleLine :=
  if echo then
    if entry.level.rank < config.level.rank then []
    else entry.offered.map (.echoed config.timestamps)
  else entry.traced.toList.map fun (level, message) => .event level message

/-- The summary of one window: its first three and last three probabilities, and the running
maximum. -/
def progressText (w : Window) (samples : List Sample) (pMax : Binary64) : String :=
  let texts (ss : List Sample) := Text.joined ", " (ss.map fun s => s.probability.toFixed 3)
  s!"finished clock cycle block {w.text}. P: [{texts (samples.take 3)}" ++
    s!"...{texts (samples.drop (samples.length - 3))}]. Pmax: {pMax.toFixed 3}"

end NoiseTimeline
