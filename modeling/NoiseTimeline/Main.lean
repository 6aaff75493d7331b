import NoiseTimeline.CommandLine.Perform
import NoiseTimeline.Shell.Host

/-!
The command line program. It reads the files that a command may ask for, carries the command out on
a machine with these files, prints the lines of its answer and stores the files that have changed.
Charts are drawn from the files whose paths stand on the standard input, one a line.
-/

namespace NoiseTimeline

def CommandLine.inputPaths (searchPath : List String) (i : Invocation)
    (settings : Settings) : List String :=
  (match i.task with
    | .run a => [a.template]
    | _ => []) ++ Shell.candidates searchPath settings.checker.executable

def Machine.changesTo (before after : Machine) : List (String × FileNode) :=
  after.tree.entries.filterMap fun e =>
    if before.tree.node? e.1 = some e.2 then none else some ("/" ++ String.intercalate "/" e.1, e.2)

def Machine.withFile (m : Machine) (path : String) (content : ByteArray) : Machine :=
  let above := (Path.parent? path).getD ""
  let m := (Machine.disk.makeDirectories above m).2
  match m.tree.locate m.cwd path with
  | .ok at_ =>
    { m with tree := m.tree.put at_ (.file content ("#!".toUTF8.toList.isPrefixOf content.toList)) }
  | .error _ => m

def Machine.loaded (m : Machine) (path : String) : IO Machine := do
  try return m.withFile path (← IO.FS.readBinFile path)
  catch _ => return m

partial def remainingLines (input : IO.FS.Stream) : IO (List String) := do
  let line ← input.getLine
  if line.isEmpty then return [] else return Text.trimmed line :: (← remainingLines input)

def Machine.ofArguments (arguments : List String) : IO Machine := do
  let cwd := (← IO.getEnv "PWD").getD "/"
  let searchPath := ((← IO.getEnv "PATH").getD "").splitOn ":"
  let empty : Machine := { cwd := Path.parts cwd, searchPath }
  let m := (Machine.disk.makeDirectories cwd empty).2
  match CommandLine.read arguments with
  | .ok (.perform i) =>
    let m ← m.loaded i.settingsPath
    let settings :=
      ((Machine.disk.readText i.settingsPath m).toOption.bind Settings.ofToml?).getD {}
    let listed ← match i.task with
      | .plot _ _ => remainingLines (← IO.getStdin)
      | _ => pure []
    (CommandLine.inputPaths searchPath i settings ++ listed).foldlM Machine.loaded m
  | _ => return m

def storeChange (change : String × FileNode) : IO Unit :=
  match change.2 with
  | .directory => IO.FS.createDirAll change.1
  | .file content _ => IO.FS.writeBinFile change.1 content

end NoiseTimeline

open NoiseTimeline in
def main (arguments : List String) : IO UInt32 := do
  let m ← Machine.ofArguments arguments
  let started ← IO.monoNanosNow
  let (ending, after) ← IO.lazyPure fun _ => CommandLine.respond Machine.host ⟨0, 0⟩ arguments m
  let nanos := (← IO.monoNanosNow) - started
  -- The second time the answer tells how long the first one took.
  let (ending, after) := if ending.exitCode = 0
    then CommandLine.respond Machine.host ⟨nanos / 1000000000, nanos % 1000000000⟩ arguments m
    else (ending, after)
  for line in after.shown do
    match line.output? "00:00:00" with
    | some text => IO.println text
    | none => pure ()
  match ending.report with
  | some report => IO.eprintln s!"Error: {report}"
  | none => pure ()
  (m.changesTo after).forM storeChange
  return UInt32.ofNat ending.exitCode
