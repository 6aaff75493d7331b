import NoiseTimeline.Shell.Condition
import NoiseTimeline.Shell.Field
import NoiseTimeline.Shell.Format
import NoiseTimeline.Text.Blank
import NoiseTimeline.Text.Search

/-!
The utilities that scripts may call. Each takes its arguments and gives its exit status. Those of
the first table belong to the shell, those of the second are programs of the machine.
-/

namespace NoiseTimeline.Shell

abbrev Utility := List (List Char) → Effect Nat

namespace Utility

open Effect

def separators : Effect (List Char) := do
  return ((← get).bindings.lookup "IFS".toList).getD " \t\n".toList

def echo : Utility := fun arguments => do
  let (newline, arguments) := match arguments with
    | ['-', 'n'] :: r => (false, r)
    | r => (true, r)
  let (text, goesOn) := Format.unescape ([' '].intercalate arguments)
  write 1 (if newline && goesOn then text ++ ['\n'] else text)
  return 0

def printf : Utility := fun arguments => do
  let arguments := if arguments.head? = some "--".toList then arguments.drop 1 else arguments
  match arguments with
  | [] =>
    complain "printf: usage: printf format [arg ...]"
    return 2
  | format :: arguments =>
    let (text, complaints, status) := Format.print format arguments
    write 1 text
    for c in complaints do
      complain ("printf: " ++ c)
    return status

def test (name : String) : Utility := fun arguments => do
  match Condition.holds (← get).machine arguments with
  | .ok b => return if b then 0 else 1
  | .error e =>
    complain s!"{name}: {e.message}"
    return 2

def bracket : Utility := fun arguments => do
  if arguments.getLast? = some [']'] then test "[" arguments.dropLast
  else
    complain "[: missing ]"
    return 2

/-- The next line of a text, whether it was ended by a line feed, and what follows. With `escapes` a
backslash guards the next character and joins lines. -/
def lineOf (escapes : Bool) (acc : List Glyph) : List Char → List Glyph × Bool × List Char
  | [] => (acc.reverse, false, [])
  | '\n' :: r => (acc.reverse, true, r)
  | c :: r =>
    if escapes && c == '\\' then
      match r with
      | [] => (acc.reverse, false, [])
      | '\n' :: r => lineOf escapes acc r
      | d :: r => lineOf escapes (.char d true false :: acc) r
    else lineOf escapes (.char c false true :: acc) r

def splitField (separators : List Char) (g : List Glyph) : List Glyph × List Glyph :=
  let separates := Glyph.separates separators
  let blank (x : Glyph) : Bool := separates x && x.isBlank
  let g := g.dropWhile blank
  let field := g.takeWhile fun x => !separates x
  let rest := (g.drop field.length).dropWhile blank
  match rest with
  | x :: r => (field, if separates x then r.dropWhile blank else rest)
  | [] => (field, [])

def assignFields (separators : List Char) : List (List Char) → List Glyph → Effect Unit
  | [], _ => return
  | [name], g => do
    let blank (x : Glyph) : Bool := Glyph.separates separators x && x.isBlank
    let g := ((g.dropWhile blank).reverse.dropWhile blank).reverse
    setVariable name (Glyph.text g)
  | name :: names, g => do
    let (field, rest) := splitField separators g
    setVariable name (Glyph.text field)
    assignFields separators names rest

def read : Utility := fun arguments => do
  let isRaw := arguments.contains "-r".toList
  let names := arguments.filter fun a => a ≠ "-r".toList
  if names.isEmpty then
    complain "read: arg count"
    return 2
  match ← channel? 0 with
  | some (.source n) =>
    let (line, ended, rest) := lineOf (!isRaw) [] (((← get).sources[n]?).getD [])
    modify fun s => { s with sources := s.sources.setIfInBounds n rest }
    assignFields (← separators) names line
    return if ended then 0 else 1
  | _ =>
    assignFields [] names []
    return 1

def signalNumber? (s : List Char) : Option Nat :=
  let names : List (String × Nat) :=
    [("HUP", 1), ("INT", 2), ("QUIT", 3), ("ILL", 4), ("ABRT", 6), ("FPE", 8), ("KILL", 9),
      ("USR1", 10), ("SEGV", 11), ("USR2", 12), ("PIPE", 13), ("ALRM", 14), ("TERM", 15),
      ("CHLD", 17), ("CONT", 18), ("STOP", 19)]
  match Arithmetic.valueIn? 10 s with
  | some n => some n
  | none => names.lookup (String.ofList (if "SIG".toList.isPrefixOf s then s.drop 3 else s))

def ignoredSignals : List Nat := [0, 17, 18, 23, 28]

def kill : Utility := fun arguments => do
  let (signal, targets) := match arguments with
    | ['-', 's'] :: s :: r => (signalNumber? s, r)
    | ('-' :: s) :: r => (signalNumber? s, r)
    | r => (some 15, r)
  match signal with
  | none =>
    complain "kill: Illegal option"
    return 2
  | some signal =>
    if targets.contains processNumber then
      if !ignoredSignals.contains signal then setFlow (.killed signal)
      return 0
    else
      complain "kill: No such process"
      return 1

def statusOf (name : String) (arguments : List (List Char)) : Effect (Option Nat) := do
  match arguments with
  | [] => return some (← get).status
  | a :: _ =>
    match Arithmetic.valueIn? 10 a with
    | some n => return some (n % 256)
    | none =>
      abandon s!"{name}: Illegal number: {toText a}"
      return none

def exit : Utility := fun arguments => do
  match ← statusOf "exit" arguments with
  | some n =>
    setFlow .exit
    return n
  | none => return 2

def leaveFunction : Utility := fun arguments => do
  match ← statusOf "return" arguments with
  | some n =>
    setFlow .leaveFunction
    return n
  | none => return 2

def loopCount (arguments : List (List Char)) : Nat :=
  max 1 (((arguments.head?.bind (Arithmetic.valueIn? 10))).getD 1)

def leaveLoops : Utility := fun arguments => do
  setFlow (.leaveLoops (loopCount arguments))
  return 0

def nextRound : Utility := fun arguments => do
  setFlow (.nextRound (loopCount arguments))
  return 0

def shift : Utility := fun arguments => do
  let n := ((arguments.head?.bind (Arithmetic.valueIn? 10))).getD 1
  if (← get).arguments.length < n then
    abandon "shift: can't shift that many"
    return 2
  modify fun s => { s with arguments := s.arguments.drop n }
  return 0

def setOption (on : Bool) (c : Char) : Effect Unit :=
  modify fun s =>
    if c = 'e' then { s with stopsOnFailure := on }
    else if c = 'u' then { s with stopsOnUnset := on }
    else s

/-- Options of the shell and its arguments; `fuel` bounds the number of options. -/
def setFrom : Nat → Utility
  | 0, _ => return 0
  | fuel + 1, arguments => do
    match arguments with
    | [] => return 0
    | ['-', '-'] :: r =>
      modify fun s => { s with arguments := r }
      return 0
    | ('-' :: options) :: r =>
      for c in options do
        setOption true c
      setFrom fuel r
    | ('+' :: options) :: r =>
      for c in options do
        setOption false c
      setFrom fuel r
    | r =>
      modify fun s => { s with arguments := r }
      return 0

def set : Utility := fun arguments => setFrom (arguments.length + 1) arguments

/-- Sets the variables of arguments with an equals sign, after `before` has been done for each
name. -/
def declare (before : List Char → Effect Unit) : Utility := fun arguments => do
  for a in arguments do
    let name := a.takeWhile (· != '=')
    before name
    if name.length < a.length then setVariable name (a.drop (name.length + 1))
  return 0

def ownVariable (name : List Char) : Effect Unit :=
  modify fun s => { s with hidden := (name, s.bindings.lookup name) :: s.hidden }

def unset : Utility := fun arguments => do
  for a in arguments do
    restoreVariable a none
    if arguments.head? = some "-f".toList then
      modify fun s => { s with functions := s.functions.filter fun f => f.1 ≠ a }
  return 0

def workingDirectory : Utility := fun _ => do
  writeText 1 ((← get).machine.cwdText ++ "\n")
  return 0

def changeDirectory : Utility := fun arguments => do
  let m := (← get).machine
  let target := arguments.headD ['/']
  match m.tree.find m.cwd (toText target), m.tree.locate m.cwd (toText target) with
  | .ok .directory, .ok at_ =>
    modify fun s => { s with machine := { s.machine with cwd := at_ } }
    return 0
  | _, _ =>
    complain s!"cd: can't cd to {toText target}"
    return 2

def succeed : Utility := fun _ => return 0

def fail : Utility := fun _ => return 1

/-- The arguments that are no options, and the letters of those that are. -/
def splitOptions (arguments : List (List Char)) : List Char × List (List Char) :=
  let isOption (a : List Char) : Bool := a.length > 1 && a.head? == some '-' && a ≠ "--".toList
  let options := arguments.takeWhile isOption
  let rest := arguments.drop options.length
  (options.flatMap (List.drop 1), if rest.head? = some "--".toList then rest.drop 1 else rest)

def report (name : String) (path : List Char) (e : IoError) : Effect Unit :=
  writeText 2 s!"{name}: {toText path}: {errorText e}\n"

/-- The content of a file, or of the standard input for a dash; a failure is reported. -/
def content? (name : String) (path : List Char) : Effect (Option (List Char)) := do
  if path = ['-'] then return some (← readAll 0)
  let m := (← get).machine
  match m.tree.read m.cwd (toText path) with
  | .ok bytes => return some (ofBytes bytes)
  | .error e =>
    report name path e
    return none

def overFiles (name : String) (paths : List (List Char))
    (use : List Char → Effect Unit) : Effect Nat := do
  let mut status := 0
  for path in (if paths.isEmpty then [['-']] else paths) do
    match ← content? name path with
    | some text => use text
    | none => status := 1
  return status

def cat : Utility := fun arguments => overFiles "cat" (splitOptions arguments).2 (write 1)

def wholeLines (s : List Char) : List (List Char) :=
  let (done, open_) := s.foldr (fun c (acc : List (List Char) × List Char) =>
    if c = '\n' then ((if acc.2.isEmpty then acc.1 else acc.2 :: acc.1), [c])
    else (acc.1, c :: acc.2)) ([], [])
  if open_.isEmpty then done else open_ :: done

/-- A count of lines given by `-n 5`, `-n5` or `-5`, and the other arguments. -/
def lineCount : List (List Char) → Nat × List (List Char)
  | ['-', 'n'] :: n :: r => ((Arithmetic.valueIn? 10 n).getD 10, r)
  | ('-' :: 'n' :: n) :: r => ((Arithmetic.valueIn? 10 n).getD 10, r)
  | ('-' :: n) :: r =>
    match Arithmetic.valueIn? 10 n with
    | some k => (k, r)
    | none => (10, ('-' :: n) :: r)
  | r => (10, r)

def head : Utility := fun arguments => do
  let (n, paths) := lineCount arguments
  overFiles "head" paths fun text => write 1 ((wholeLines text).take n).flatten

def tail : Utility := fun arguments => do
  let (n, paths) := lineCount arguments
  overFiles "tail" paths fun text =>
    let lines := wholeLines text
    write 1 (lines.drop (lines.length - n)).flatten

def wordCount (s : List Char) : Nat :=
  (s.splitBy fun a b => Text.isBlank a == Text.isBlank b).countP fun w =>
    w.any fun c => !Text.isBlank c

def count : Utility := fun arguments => do
  let (options, paths) := splitOptions arguments
  let number (text : List Char) : Nat :=
    if options.contains 'l' then text.count '\n'
    else if options.contains 'w' then wordCount text
    else text.length
  if paths.isEmpty then
    writeText 1 s!"{number (← readAll 0)}\n"
    return 0
  let mut status := 0
  for path in paths do
    match ← content? "wc" path with
    | some text => writeText 1 s!"{number text} {toText path}\n"
    | none => status := 1
  return status

def sequence : Utility := fun arguments => do
  let numbers := arguments.filterMap Arithmetic.signed?
  let (first, step, last) := match numbers with
    | [b] => (1, 1, b)
    | [a, b] => (a, 1, b)
    | a :: s :: b :: _ => (a, s, b)
    | [] => (1, 1, 0)
  let count :=
    if step = 0 then 0 else if (0 < step ∧ last < first) ∨ (step < 0 ∧ first < last) then 0
    else ((last - first) / step).toNat + 1
  for i in List.range count do
    writeText 1 s!"{first + step * i}\n"
  return 0

def onTree (name : String) (path : List Char)
    (step : FileTree → Location → Except IoError FileTree) : Effect Bool := do
  let m := (← get).machine
  match step m.tree m.cwd with
  | .ok tree =>
    modify fun s => { s with machine := { s.machine with tree } }
    return true
  | .error e =>
    writeText 2 s!"{name} '{toText path}': {errorText e}\n"
    return false

def overPaths (paths : List (List Char)) (step : List Char → Effect Bool) : Effect Nat := do
  let mut status := 0
  for path in paths do
    if !(← step path) then status := 1
  return status

def remove : Utility := fun arguments => do
  let (options, paths) := splitOptions arguments
  overPaths paths fun path => do
    let m := (← get).machine
    let name := toText path
    if options.contains 'f' && !m.tree.exists? m.cwd name then return true
    onTree "rm: cannot remove" path fun tree cwd => do
      if (options.contains 'r' || options.contains 'R') && tree.isDirectory cwd name then
        let at_ ← tree.locate cwd name
        return ⟨tree.entries.filter fun e => !at_.isPrefixOf e.1⟩
      else tree.removeFile cwd name

def removeDirectory : Utility := fun arguments =>
  overPaths (splitOptions arguments).2 fun path =>
    onTree "rmdir: failed to remove" path fun tree cwd => do
      match ← tree.find cwd (toText path) with
      | .file _ _ => throw (.system SystemError.notDirectory)
      | .directory =>
        let at_ ← tree.locate cwd (toText path)
        if (tree.names at_).isEmpty then return tree.erase at_
        else throw (.system SystemError.directoryNotEmpty)

def makeDirectory : Utility := fun arguments => do
  let (options, paths) := splitOptions arguments
  overPaths paths fun path =>
    onTree "mkdir: cannot create directory" path fun tree cwd =>
      if options.contains 'p' then
        let (made, r) := tree.makeDirectories cwd (toText path)
        r.map fun _ => made
      else tree.makeDirectory cwd (toText path)

def touch : Utility := fun arguments =>
  overPaths (splitOptions arguments).2 fun path =>
    onTree "touch: cannot touch" path fun tree cwd =>
      if tree.exists? cwd (toText path) then .ok tree else tree.create cwd (toText path)

/-- Where a file goes that is moved or copied to a path: into a directory that is there, or to the
path itself. -/
def targetOf (tree : FileTree) (cwd : Location) (source target : String) : String :=
  if tree.isDirectory cwd target then Path.join target ((Path.fileName? source).getD source)
  else target

def move : Utility := fun arguments => do
  match (splitOptions arguments).2 with
  | [source, target] =>
    overPaths [source] fun path =>
      onTree "mv: cannot stat" path fun tree cwd =>
        tree.rename cwd (toText path) (targetOf tree cwd (toText path) (toText target))
  | _ => return 1

def copy : Utility := fun arguments => do
  match (splitOptions arguments).2 with
  | [source, target] =>
    overPaths [source] fun path =>
      onTree "cp: cannot stat" path fun tree cwd => do
        let bytes ← tree.read cwd (toText path)
        let place := targetOf tree cwd (toText path) (toText target)
        (← tree.create cwd place).append cwd place bytes
  | _ => return 1

/-- Whether a permission lets a file be run, for the modes that scripts set. -/
def executableMode? (mode : List Char) : Option Bool :=
  if mode.all Char.isDigit then some (mode.any fun c => (c.toNat - '0'.toNat) % 2 == 1)
  else if mode.contains 'x' then some (mode.contains '+')
  else none

def changeMode : Utility := fun arguments => do
  match arguments with
  | mode :: paths =>
    overPaths paths fun path =>
      onTree "chmod: cannot access" path fun tree cwd => do
        let at_ ← tree.locate cwd (toText path)
        match ← tree.find cwd (toText path), executableMode? mode with
        | .file content _, some executable => return tree.put at_ (.file content executable)
        | _, _ => return tree
  | [] => return 1

def listDirectory : Utility := fun arguments => do
  let paths := (splitOptions arguments).2
  let m := (← get).machine
  let status ← overPaths (if paths.isEmpty then [['.']] else paths) fun path => do
    match m.tree.list m.cwd (toText path) with
    | .ok names =>
      let shown :=
        (names.filter fun n => n.toList.head? ≠ some '.').mergeSort fun a b => !decide (b < a)
      writeText 1 (String.join (shown.map (· ++ "\n")))
      return true
    | .error e =>
      if m.tree.exists? m.cwd (toText path) then
        write 1 (path ++ ['\n'])
        return true
      writeText 2 s!"ls: cannot access '{toText path}': {errorText e}\n"
      return false
  return 2 * status

def baseName : Utility := fun arguments => do
  let path := toText (arguments.headD [])
  let name := (ofText ((Path.parts path).getLast?.getD path))
  let ending := (arguments.drop 1).headD []
  let name := if ending.isSuffixOf name && ending.length < name.length then
    name.take (name.length - ending.length) else name
  write 1 (name ++ ['\n'])
  return 0

def directoryName : Utility := fun arguments => do
  let path := toText (arguments.headD [])
  let above := match Path.parent? path with
    | some "" | none => "."
    | some p => p
  writeText 1 (above ++ "\n")
  return 0

def tee : Utility := fun arguments => do
  let text ← readAll 0
  write 1 text
  let (options, paths) := splitOptions arguments
  overPaths paths fun path => do
    match ← openOutput (!options.contains 'a') path with
    | .ok channel =>
      keepingChannels do
        setChannel 1 channel
        write 1 text
      return true
    | .error e =>
      writeText 2 s!"tee: {e}\n"
      return false

/-- Lines that contain a plain text, which may be bound to the start or the end of the line. -/
def search : Utility := fun arguments => do
  let (options, rest) := splitOptions arguments
  match rest with
  | [] => return 2
  | pattern :: paths =>
    let start := pattern.head? = some '^' && !options.contains 'F'
    let pattern := if start then pattern.drop 1 else pattern
    let ending := pattern.getLast? = some '$' && !options.contains 'F'
    let pattern := if ending then pattern.dropLast else pattern
    let fits (line : List Char) : Bool :=
      (if start && ending then line == pattern
        else if start then pattern.isPrefixOf line
        else if ending then pattern.isSuffixOf line
        else Text.contains pattern line) != options.contains 'v'
    let mut found := 0
    for path in (if paths.isEmpty then [['-']] else paths) do
      match ← content? "grep" path with
      | none => pure ()
      | some text =>
        let lines :=
          ((wholeLines text).map fun l =>
            if l.getLast? = some '\n' then l.dropLast else l).filter fits
        found := found + lines.length
        if !options.contains 'q' && !options.contains 'c' then
          for l in lines do
            write 1 (l ++ ['\n'])
    if options.contains 'c' then writeText 1 s!"{found}\n"
    return if found = 0 then 1 else 0

def ofShell : List (String × Utility) := [
  (":", succeed), ("true", succeed), ("false", fail), ("echo", echo), ("printf", printf),
  ("read", read), ("test", test "test"), ("[", bracket), ("kill", kill), ("exit", exit),
  ("return", leaveFunction), ("break", leaveLoops), ("continue", nextRound), ("shift", shift),
  ("set", set), ("export", declare fun _ => return), ("readonly", declare fun _ => return),
  ("local", declare ownVariable), ("unset", unset), ("pwd", workingDirectory),
  ("cd", changeDirectory), ("umask", succeed), ("wait", succeed), ("trap", succeed)]

/-- The utilities whose assignments stay, and whose redirections must not fail. -/
def special : List String :=
  [":", "exit", "return", "break", "continue", "shift", "set", "export", "readonly", "unset",
    "trap", "eval", "exec"]

def ofMachine : List (String × Utility) := [
  ("cat", cat), ("head", head), ("tail", tail), ("wc", count), ("seq", sequence), ("rm", remove),
  ("rmdir", removeDirectory), ("mkdir", makeDirectory), ("touch", touch), ("mv", move),
  ("cp", copy), ("chmod", changeMode), ("ls", listDirectory), ("basename", baseName),
  ("dirname", directoryName), ("tee", tee), ("grep", search), ("sleep", succeed), ("sync", succeed)]

end Utility

end NoiseTimeline.Shell
