import NoiseTimeline.Chart.Svg

/-!
The charts of a tree of results: for each directory and each kind of noise with curves, one chart in
full size and one in small size.
-/

namespace NoiseTimeline

namespace Svg

variable {σ : Type}

/-- The sizes of the charts that are written, with the mark that their file names end in. -/
def sizes : List (String × ChartSize Float) := [("", .full), ("_small", .small)]

def chartPath (outDir name : String) (property : NoiseProperty) (mark : String) : String :=
  Path.join outDir s!"{name}_{property.token}{mark}.svg"

def writeFiles (host : Host σ) : List (String × String) → σ → Except ChartError (List String) × σ
  | [], s => (.ok [], s)
  | (path, content) :: rest, s =>
    match host.writeFile path content s with
    | (.error e, s) => (.error ⟨path, e⟩, s)
    | (.ok (), s) =>
      match writeFiles host rest s with
      | (.error e, s) => (.error e, s)
      | (.ok paths, s) => (.ok (path :: paths), s)

def writePlots (host : Host σ) (outDir name : String) :
    List (NoiseProperty × List Series) → σ → Except ChartError (List String) × σ
  | [], s => (.ok [], s)
  | (property, series) :: rest, s =>
    if series.isEmpty then writePlots host outDir name rest s
    else
      let files :=
        sizes.map fun (mark, size) => (chartPath outDir name property mark, render size series)
      match writeFiles host files s with
      | (.error e, s) => (.error e, s)
      | (.ok written, s) =>
        let s := host.event .info s!"Plotted {series.length} {property.token} curves for {name}" s
        match writePlots host outDir name rest s with
        | (.error e, s) => (.error e, s)
        | (.ok more, s) => (.ok (written ++ more), s)

/-- Charts for one directory of results. Without curves there is no chart. -/
def plotDirectory (host : Host σ) (dir outDir : String) (s : σ) :
    Except ChartError (List String) × σ :=
  match Catalog.scan host dir s with
  | (.error e, s) => (.error e, s)
  | (.ok catalog, s) => writePlots host outDir catalog.name catalog.plots s

def plotDirectories (host : Host σ) (outDir : String) :
    List String → σ → Except ChartError (List String) × σ
  | [], s => (.ok [], s)
  | dir :: rest, s =>
    match plotDirectory host dir outDir s with
    | (.error e, s) => (.error e, s)
    | (.ok written, s) =>
      match plotDirectories host outDir rest s with
      | (.error e, s) => (.error e, s)
      | (.ok more, s) => (.ok (written ++ more), s)

/-- Charts for every directory directly below `root`, in the order of their names. -/
def plotResults (host : Host σ) (root outDir : String) (s : σ) :
    Except ChartError (List String) × σ :=
  match host.makeDirectories outDir s with
  | (.error e, s) => (.error ⟨outDir, e⟩, s)
  | (.ok (), s) =>
    match host.list root s with
    | .error e => (.error ⟨root, e⟩, s)
    | .ok names =>
      let dirs := (Catalog.sorted names).map (Path.join root)
      plotDirectories host outDir (dirs.filter fun d => host.isDirectory d s) s

end Svg

end NoiseTimeline
