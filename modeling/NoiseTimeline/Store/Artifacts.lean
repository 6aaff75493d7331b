import NoiseTimeline.Config
import NoiseTimeline.Store.Host
import NoiseTimeline.Store.Path
import NoiseTimeline.TimelineCsv

/-!
The artifacts of a run: the timeline and the run log, under names made of the configuration. Each is
written beside its place and moved there, the log before the timeline, so that no reader meets a
part of one.
-/

namespace NoiseTimeline

inductive StoreError where
  | io (path : String) (cause : IoError)
  | malformedCsv (fault : MalformedCsv)
  deriving DecidableEq

def StoreError.message : StoreError → String
  | .io path cause => s!"I/O error on {path}: {cause.message}"
  | .malformedCsv fault => s!"Malformed timeline CSV at line {fault.line}: {fault.message}"

namespace RunConfig

def artifactStem (c : RunConfig) : String :=
  s!"noc_{c.size}x{c.size}_{c.property.token}_noise_threshold_{c.threshold}" ++
    s!"_stride_{c.stride}_block_size_{c.width}"

def csvName (c : RunConfig) : String := c.artifactStem ++ ".csv"

def logName (c : RunConfig) : String := c.artifactStem ++ ".time.txt"

end RunConfig

structure Artifacts where
  csv : String
  runLog : String
  deriving DecidableEq

namespace Artifacts

def within (dir : String) (c : RunConfig) : Artifacts :=
  ⟨Path.join dir c.csvName, Path.join dir c.logName⟩

def temporary (path : String) : String := path ++ ".tmp"

variable {σ : Type}

def onPath {α : Type} (path : String) (r : Except IoError α × σ) : Except StoreError α × σ :=
  (r.1.mapError (.io path), r.2)

def persist (host : Host σ) (dir : String) (c : RunConfig) (t : Timeline) (log : String) (s : σ) :
    Except StoreError Artifacts × σ :=
  let paths := within dir c
  match onPath dir (host.makeDirectories dir s) with
  | (.error e, s) => (.error e, s)
  | (.ok (), s) =>
    match onPath paths.runLog (host.replaceFile (temporary paths.runLog) paths.runLog log s) with
    | (.error e, s) => (.error e, s)
    | (.ok (), s) =>
      match onPath paths.csv
        (host.replaceFile (temporary paths.csv) paths.csv (TimelineCsv.write t) s) with
      | (.error e, s) => (.error e, s)
      | (.ok (), s) => (.ok paths, host.event .info s!"Wrote {t.length} samples to {paths.csv}" s)

end Artifacts

def readTimeline {σ : Type} (disk : Disk σ) (path : String) (s : σ) : Except StoreError Timeline :=
  match disk.readText path s with
  | .error e => .error (.io path e)
  | .ok text => (TimelineCsv.parse text).mapError .malformedCsv

end NoiseTimeline
