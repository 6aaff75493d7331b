import NoiseTimeline.Text.Search

/-!
Paths as text. The parts of a path lie between its slashes; empty parts and parts `.` name nothing.
What a path denotes is decided by the file tree; the functions here only take texts apart and put
them together.
-/

namespace NoiseTimeline.Path

def splitSlash : List Char → List (List Char)
  | [] => [[]]
  | c :: s =>
    if c = '/' then [] :: splitSlash s
    else match splitSlash s with
      | [] => [[c]]
      | p :: ps => (c :: p) :: ps

def isAbsolute (path : String) : Bool := path.toList.head? == some '/'

def parts (path : String) : List String :=
  ((splitSlash path.toList).filter fun p => p ≠ [] ∧ p ≠ ['.']).map String.ofList

def wantsDirectory (path : String) : Bool :=
  match (splitSlash path.toList).getLast? with
  | some p => p = [] ∨ p = ['.']
  | none => false

def fileName? (path : String) : Option String :=
  match (parts path).getLast? with
  | some p => if p = ".." then none else some p
  | none => none

def join (dir name : String) : String :=
  if isAbsolute name || dir.isEmpty then name
  else if dir.toList.getLast? = some '/' then dir ++ name
  else dir ++ "/" ++ name

def parent? (path : String) : Option String :=
  let start := if isAbsolute path then "/" else ""
  match parts path with
  | [] => if !isAbsolute path && !path.isEmpty then some "" else none
  | ps => some (start ++ String.intercalate "/" ps.dropLast)

def splitLast (s : List Char) : List Char × List Char :=
  let name := (s.reverse.takeWhile (· != '/')).reverse
  (s.take (s.length - name.length), name)

def dropTrailing : Nat → List Char → List Char
  | 0, s => s
  | fuel + 1, s =>
    match s.reverse with
    | '/' :: r => dropTrailing fuel r.reverse
    | '.' :: '/' :: r => dropTrailing fuel r.reverse
    | _ => s

/-- The name without its last point and what follows; a point at the start does not count. -/
def stem (name : List Char) : List Char :=
  match (name.reverse.dropWhile (· != '.')).drop 1 with
  | [] => name
  | r => r.reverse

/-- The path with the extension of its file name replaced, or added if there is none. -/
def withExtension (path extension : String) : String :=
  match fileName? path with
  | none => path
  | some _ =>
    let s := path.toList
    let (dir, name) := splitLast (dropTrailing s.length s)
    String.ofList (dir ++ stem name) ++ "." ++ extension

example : withExtension "a/b.toml" "toml.tmp" = "a/b.toml.tmp" := by decide +kernel

example : withExtension ".hidden" "x" = ".hidden.x" := by decide +kernel

example : (parent? "d/x", parent? "x", parent? "/x", parent? "") =
    (some "d", some "", some "/", none) := by
  decide +kernel

end NoiseTimeline.Path
