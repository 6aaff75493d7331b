import NoiseTimeline.RunLog
import NoiseTimeline.SystemError

/-!
What a run needs of its surroundings, as operations on a state of any type: a file store, a way to
start programs, and a console. Each operation may fail and says what state it leaves behind.
-/

namespace NoiseTimeline

/-- Operations on files. `create` empties a file or makes it; `write` may stop half-way when it
fails. -/
structure Disk (σ : Type) where
  fileExists : String → σ → Bool
  isDirectory : String → σ → Bool
  readText : String → σ → Except IoError String
  list : String → σ → Except IoError (List String)
  makeDirectories : String → σ → Except IoError Unit × σ
  create : String → σ → Except IoError Unit × σ
  write : String → ByteArray → σ → Except IoError Unit × σ
  sync : String → σ → Except IoError Unit × σ
  rename : String → String → σ → Except IoError Unit × σ
  remove : String → σ → Except IoError Unit × σ

/-- What a finished program leaves: its output and its exit code, which a signal takes away. -/
structure ProcessResult where
  out : ByteArray
  err : ByteArray
  exitCode : Option Nat

structure Host (σ : Type) extends Disk σ where
  findExecutable : String → σ → Option String
  execute : String → List String → σ → Except IoError ProcessResult × σ
  say : ConsoleLine → σ → σ

namespace Disk

variable {σ : Type}

def andThen {α : Type} (step : Except IoError Unit × σ) (next : σ → Except IoError α × σ) :
    Except IoError α × σ :=
  match step with
  | (.error e, s) => (.error e, s)
  | (.ok (), s) => next s

def writeFile (disk : Disk σ) (path text : String) (s : σ) : Except IoError Unit × σ :=
  andThen (disk.create path s) (disk.write path text.toUTF8)

/-- Puts a text into `temporary` and moves that file to `path`, so that `path` never holds a part of
it. -/
def replaceFile (disk : Disk σ) (temporary path text : String) (s : σ) : Except IoError Unit × σ :=
  andThen (disk.create temporary s) fun s =>
    andThen (disk.write temporary text.toUTF8 s) fun s =>
      andThen (disk.sync temporary s) fun s =>
        disk.rename temporary path s

end Disk

namespace Host

variable {σ τ : Type}

/-- The same operations on a larger state that holds the state of the host. -/
def through (get : τ → σ) (set : σ → τ → τ) (host : Host σ) : Host τ :=
  let lift {α : Type} (step : α × σ) (t : τ) : α × τ := (step.1, set step.2 t)
  { fileExists := fun path t => host.fileExists path (get t)
    isDirectory := fun path t => host.isDirectory path (get t)
    readText := fun path t => host.readText path (get t)
    list := fun path t => host.list path (get t)
    makeDirectories := fun path t => lift (host.makeDirectories path (get t)) t
    create := fun path t => lift (host.create path (get t)) t
    write := fun path bytes t => lift (host.write path bytes (get t)) t
    sync := fun path t => lift (host.sync path (get t)) t
    rename := fun source target t => lift (host.rename source target (get t)) t
    remove := fun path t => lift (host.remove path (get t)) t
    findExecutable := fun tool t => host.findExecutable tool (get t)
    execute := fun tool arguments t => lift (host.execute tool arguments (get t)) t
    say := fun line t => set (host.say line (get t)) t }

def event (host : Host σ) (level : LogLevel) (message : String) (s : σ) : σ :=
  host.say (.event level message) s

end Host

end NoiseTimeline
