import NoiseTimeline.Store.FileTree
import NoiseTimeline.Store.Host

/-!
A machine: a tree of files, a current directory, a search path for programs, and the lines shown so
far. Its disk operations are those of the tree.
-/

namespace NoiseTimeline

structure Machine where
  tree : FileTree := .empty
  cwd : Location := []
  searchPath : List String := []
  shown : Array ConsoleLine := #[]

namespace Machine

def updated (m : Machine) (step : Except IoError FileTree) : Except IoError Unit × Machine :=
  match step with
  | .ok tree => (.ok (), { m with tree })
  | .error e => (.error e, m)

def disk : Disk Machine where
  fileExists path m := m.tree.exists? m.cwd path
  isDirectory path m := m.tree.isDirectory m.cwd path
  readText path m := m.tree.readText m.cwd path
  list path m := m.tree.list m.cwd path
  makeDirectories path m :=
    let (tree, r) := m.tree.makeDirectories m.cwd path
    (r, { m with tree })
  create path m := m.updated (m.tree.create m.cwd path)
  write path bytes m := m.updated (m.tree.append m.cwd path bytes)
  sync path m := ((m.tree.find m.cwd path).map fun _ => (), m)
  rename source target m := m.updated (m.tree.rename m.cwd source target)
  remove path m := m.updated (m.tree.removeFile m.cwd path)

def cwdText (m : Machine) : String := "/" ++ String.intercalate "/" m.cwd

def say (line : ConsoleLine) (m : Machine) : Machine := { m with shown := m.shown.push line }

def isExecutable (m : Machine) (path : String) : Bool :=
  match m.tree.find m.cwd path with
  | .ok (.file _ executable) => executable
  | _ => false

/-- An executable's absolute path: a name with a slash is a path, another is looked for on the
search path. -/
def findExecutable (tool : String) (m : Machine) : Option String :=
  if tool.isEmpty then none
  else if tool.toList.contains '/' then
    let path := if Path.isAbsolute tool then tool
      else m.cwdText ++ "/" ++ String.intercalate "/" (Path.parts tool)
    if m.isExecutable path then some path else none
  else (m.searchPath.map (Path.join · tool)).find? m.isExecutable

end Machine

end NoiseTimeline
