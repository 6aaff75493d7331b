import NoiseTimeline.Chart.Grouping
import NoiseTimeline.Store.Artifacts

/-!
The curves in a directory of results: for each kind of noise the readable timelines by threshold.
-/

namespace NoiseTimeline

structure Series where
  threshold : Nat
  source : String
  timeline : Timeline
  deriving DecidableEq

def Series.label (s : Series) : String := s!"≥ {s.threshold}"

structure Catalog where
  name : String
  plots : List (NoiseProperty × List Series)

structure ChartError where
  path : String
  cause : IoError
  deriving DecidableEq

def ChartError.message (e : ChartError) : String := s!"I/O error on {e.path}: {e.cause.message}"

namespace Catalog

variable {σ : Type}

/-- The order of names is that of their characters. -/
def sorted (names : List String) : List String := names.mergeSort fun a b => a ≤ b

/-- Reads one curve; a file that holds no timeline is skipped with a warning. -/
def loadSeries (host : Host σ) (dir : String) (entry : Nat × String) (s : σ) : Option Series × σ :=
  let source := Path.join dir entry.2
  match readTimeline host.toDisk source s with
  | .ok timeline => (some ⟨entry.1, source, timeline⟩, s)
  | .error e => (none, host.event .warn s!"Skipping {source}: {e.message}" s)

def loadAll (host : Host σ) (dir : String) : List (Nat × String) → σ → List Series × σ
  | [], s => ([], s)
  | entry :: rest, s =>
    let (series, s) := loadSeries host dir entry s
    let (more, s) := loadAll host dir rest s
    (series.toList ++ more, s)

def loadPlots (host : Host σ) (dir : String) :
    List (NoiseProperty × List (Nat × String)) → σ → List (NoiseProperty × List Series) × σ
  | [], s => ([], s)
  | (property, entries) :: rest, s =>
    let (series, s) := loadAll host dir entries s
    let (more, s) := loadPlots host dir rest s
    ((property, series) :: more, s)

def isCsvName (name : String) : Bool := ".csv".toList.isSuffixOf name.toList

def scan (host : Host σ) (dir : String) (s : σ) : Except ChartError Catalog × σ :=
  match host.list dir s with
  | .error e => (.error ⟨dir, e⟩, s)
  | .ok names =>
    let files := sorted (names.filter isCsvName)
    let s := (groupingRemarks files).foldl (fun s remark => host.event .debug remark s) s
    let (plots, s) := loadPlots host dir (groupByThreshold files) s
    (.ok ⟨(Path.fileName? dir).getD "", plots⟩, s)

end Catalog

end NoiseTimeline
