import NoiseTimeline.Store.Path
import NoiseTimeline.SystemError
import NoiseTimeline.Text.Utf8

/-!
A tree of files. Every entry stands under its full list of names from the root; the root itself is
always a directory. Operations take a path as text and the current directory, and fail as a file
system does.
-/

namespace NoiseTimeline

inductive FileNode where
  | directory
  | file (content : ByteArray) (executable : Bool)

instance : DecidableEq FileNode
  | .directory, .directory => isTrue rfl
  | .directory, .file .. => isFalse nofun
  | .file .., .directory => isFalse nofun
  | .file content executable, .file content' executable' =>
    letI := ByteArray.instDecidableEq content content'
    decidable_of_iff (content = content' ∧ executable = executable') (by simp)

abbrev Location := List String

structure FileTree where
  entries : List (Location × FileNode)

namespace FileTree

def empty : FileTree := ⟨[]⟩

def node? (t : FileTree) (at_ : Location) : Option FileNode :=
  if at_ = [] then some .directory else t.entries.lookup at_

/-- The tree with one entry set; an entry that was there keeps its place in the list. -/
def put (t : FileTree) (at_ : Location) (n : FileNode) : FileTree :=
  ⟨if t.entries.any (fun e => e.1 = at_) then
      t.entries.map fun e => if e.1 = at_ then (at_, n) else e
    else t.entries ++ [(at_, n)]⟩

def erase (t : FileTree) (at_ : Location) : FileTree :=
  ⟨t.entries.filter fun e => e.1 ≠ at_⟩

def names (t : FileTree) (dir : Location) : List String :=
  t.entries.filterMap fun e =>
    if e.1.length = dir.length + 1 ∧ dir.isPrefixOf e.1 then e.1.getLast? else none

def below (t : FileTree) (dir : Location) : List (Location × FileNode) :=
  t.entries.filterMap fun e =>
    if dir.isPrefixOf e.1 ∧ dir.length < e.1.length then some (e.1.drop dir.length, e.2) else none

def nameLimit : Nat := 255

def walk (t : FileTree) (here : Location) : List String → Except IoError Location
  | [] => .ok here
  | ".." :: rest => walk t here.dropLast rest
  | [name] =>
    if nameLimit < name.utf8ByteSize then .error (.system SystemError.nameTooLong)
    else .ok (here ++ [name])
  | name :: rest =>
    if nameLimit < name.utf8ByteSize then .error (.system SystemError.nameTooLong)
    else
      match t.node? (here ++ [name]) with
      | some .directory => walk t (here ++ [name]) rest
      | some (.file _ _) => .error (.system SystemError.notDirectory)
      | none => .error (.system SystemError.noSuchEntry)

/-- Where a path leads from the current directory; the last name need not exist. -/
def locate (t : FileTree) (cwd : Location) (path : String) : Except IoError Location :=
  if path.isEmpty then .error (.system SystemError.noSuchEntry)
  else if path.toList.contains '\x00' then .error .embeddedNul
  else t.walk (if Path.isAbsolute path then [] else cwd) (Path.parts path)

def find (t : FileTree) (cwd : Location) (path : String) : Except IoError FileNode := do
  let at_ ← t.locate cwd path
  match t.node? at_ with
  | none => .error (.system SystemError.noSuchEntry)
  | some .directory => .ok .directory
  | some (.file content executable) =>
    if Path.wantsDirectory path then .error (.system SystemError.notDirectory)
    else .ok (.file content executable)

def isDirectory (t : FileTree) (cwd : Location) (path : String) : Bool :=
  match t.find cwd path with
  | .ok .directory => true
  | _ => false

def exists? (t : FileTree) (cwd : Location) (path : String) : Bool := (t.find cwd path).isOk

def read (t : FileTree) (cwd : Location) (path : String) : Except IoError ByteArray := do
  match ← t.find cwd path with
  | .directory => .error (.system SystemError.isDirectory)
  | .file content _ => .ok content

def readText (t : FileTree) (cwd : Location) (path : String) : Except IoError String := do
  match Text.decode? (← t.read cwd path) with
  | some s => .ok s
  | none => .error .invalidUtf8

/-- Opens a file for writing from the start: an existing file is emptied, a missing one made. -/
def create (t : FileTree) (cwd : Location) (path : String) : Except IoError FileTree := do
  let at_ ← t.locate cwd path
  match t.node? at_ with
  | some .directory => .error (.system SystemError.isDirectory)
  | some (.file _ executable) =>
    if Path.wantsDirectory path then .error (.system SystemError.notDirectory)
    else .ok (t.put at_ (.file ByteArray.empty executable))
  | none =>
    if Path.wantsDirectory path then .error (.system SystemError.isDirectory)
    else if t.node? at_.dropLast = some .directory then
      .ok (t.put at_ (.file ByteArray.empty false))
    else .error (.system SystemError.noSuchEntry)

def append (t : FileTree) (cwd : Location) (path : String) (bytes : ByteArray) :
    Except IoError FileTree := do
  let at_ ← t.locate cwd path
  match t.node? at_ with
  | some (.file content executable) => .ok (t.put at_ (.file (content ++ bytes) executable))
  | some .directory => .error (.system SystemError.isDirectory)
  | none => .error (.system SystemError.noSuchEntry)

def makeDirectory (t : FileTree) (cwd : Location) (path : String) : Except IoError FileTree := do
  let at_ ← t.locate cwd path
  match t.node? at_ with
  | some _ => .error (.system SystemError.entryExists)
  | none =>
    if t.node? at_.dropLast = some .directory then .ok (t.put at_ .directory)
    else .error (.system SystemError.noSuchEntry)

/-- Makes a directory and the missing ones above it; `depth` bounds how many those are. -/
def makeDirectoriesWithin (cwd : Location) :
    Nat → FileTree → String → FileTree × Except IoError Unit
  | 0, t, _ => (t, .error (.system SystemError.noSuchEntry))
  | depth + 1, t, path =>
    let settle (t : FileTree) (e : IoError) : FileTree × Except IoError Unit :=
      (t, if t.isDirectory cwd path then .ok () else .error e)
    if path.isEmpty then (t, .ok ())
    else
      match t.makeDirectory cwd path with
      | .ok t => (t, .ok ())
      | .error e =>
        if e = .system SystemError.noSuchEntry then
          match Path.parent? path with
          | none => (t, .error e)
          | some above =>
            match makeDirectoriesWithin cwd depth t above with
            | (t, .error e) => (t, .error e)
            | (t, .ok ()) =>
              match t.makeDirectory cwd path with
              | .ok t => (t, .ok ())
              | .error e => settle t e
        else settle t e

def makeDirectories (t : FileTree) (cwd : Location) (path : String) :
    FileTree × Except IoError Unit :=
  makeDirectoriesWithin cwd ((Path.parts path).length + 1) t path

def removeFile (t : FileTree) (cwd : Location) (path : String) : Except IoError FileTree := do
  match ← t.find cwd path with
  | .directory => .error (.system SystemError.isDirectory)
  | .file _ _ => .ok (t.erase (← t.locate cwd path))

/-- Moves a file into the place of another path, replacing a file that is there. -/
def rename (t : FileTree) (cwd : Location) (source target : String) : Except IoError FileTree := do
  let node ← t.find cwd source
  let origin ← t.locate cwd source
  let goal ← t.locate cwd target
  match t.node? goal with
  | some .directory => .error (.system SystemError.isDirectory)
  | some (.file _ _) =>
    if Path.wantsDirectory target then .error (.system SystemError.notDirectory)
    else if origin = goal then .ok t
    else .ok ((t.erase origin).put goal node)
  | none =>
    if Path.wantsDirectory target then .error (.system SystemError.notDirectory)
    else if t.node? goal.dropLast = some .directory then .ok ((t.erase origin).put goal node)
    else .error (.system SystemError.noSuchEntry)

def list (t : FileTree) (cwd : Location) (path : String) : Except IoError (List String) := do
  match ← t.find cwd path with
  | .directory => .ok (t.names (← t.locate cwd path))
  | .file _ _ => .error (.system SystemError.notDirectory)

end FileTree

end NoiseTimeline
