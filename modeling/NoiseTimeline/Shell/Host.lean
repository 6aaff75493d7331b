import NoiseTimeline.Shell.Evaluation

/-!
A machine as the host of a run: its programs are the scripts among its files. A name without a slash
is looked for in each directory of the search path; a directory without the file is passed over.
-/

namespace NoiseTimeline.Machine

/-- The first file that can be run, or the reason why none can; `denied` if one was not allowed to
be run. -/
def launch (m : Machine) (denied : Bool) :
    List String → Except IoError (String × List Char × List Char)
  | [] =>
    .error (.system (if denied then SystemError.permissionDenied else SystemError.noSuchEntry))
  | file :: rest =>
    match Shell.launchOf m file with
    | .script text options => .ok (file, text, options)
    | .failure n =>
      if n = SystemError.noSuchEntry ∨ n = SystemError.notDirectory then
        if rest.isEmpty && !denied then .error (.system n) else m.launch denied rest
      else if n = SystemError.permissionDenied then m.launch true rest
      else .error (.system n)

def execute (tool : String) (arguments : List String) (m : Machine) :
    Except IoError ProcessResult × Machine :=
  match m.launch false (Shell.candidates m.searchPath tool) with
  | .error e => (.error e, m)
  | .ok (file, text, options) =>
    let (result, m) := Shell.execute file text options arguments m
    (.ok result, m)

def host : Host Machine where
  toDisk := disk
  findExecutable := findExecutable
  execute := execute
  say := say

end NoiseTimeline.Machine
