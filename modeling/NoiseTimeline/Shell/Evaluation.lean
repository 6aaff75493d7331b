import NoiseTimeline.Shell.Script
import NoiseTimeline.Shell.Utility

/-!
Scripts as they run. Every step takes fuel from a store that no script of a few thousand rounds
empties; a script that does is killed.
-/

namespace NoiseTimeline.Shell

open Effect

def Session.parameter? (s : Session) (name : List Char) : Option (List Char) :=
  match String.ofList name with
  | "@" | "*" => if s.arguments.isEmpty then none else some ([' '].intercalate s.arguments)
  | "#" => some (toString s.arguments.length).toList
  | "?" => some (toString s.status).toList
  | "$" => some processNumber
  | "-" => some []
  | "!" => none
  | "0" => some s.script
  | n =>
    match n.toNat? with
    | some i => s.arguments[i - 1]?
    | none => s.bindings.lookup name

/-- The glyphs of all arguments: fields of their own, or one text where the sign `*` stands in
quotes. -/
def Session.allArguments (s : Session) (guarded : Bool) (name : List Char)
    (separators : List Char) : List Glyph :=
  let glyphs (a : List Char) : List Glyph :=
    (if guarded then [.present] else []) ++ Glyph.ofValue guarded a
  if guarded && name == ['*'] then Glyph.ofValue true ((separators.take 1).intercalate s.arguments)
  else [Glyph.boundary].intercalate (s.arguments.map glyphs)

/-- The paths that a field stands for when it is a pattern and some name matches its last part. -/
def Session.matching (s : Session) (field : List Glyph) : List (List Char) :=
  let ps := Atom.pattern field
  let text := Glyph.text field
  if Atom.isExact ps then [text]
  else
    let isSlash (g : Glyph) : Bool := match g with
      | .char '/' _ _ => true
      | _ => false
    let last := (field.reverse.takeWhile fun g => !isSlash g).reverse
    let dir := Glyph.text (field.take (field.length - last.length))
    let names :=
      match s.machine.tree.list s.machine.cwd (if dir.isEmpty then "." else toText dir) with
      | .ok names => names
      | .error _ => []
    let isHidden (n : List Char) : Bool := n.head? == some '.' && text.head? != some '.'
    let found := (names.mergeSort fun a b => !decide (b < a)).map ofText |>.filter fun n =>
      Atom.fits (Atom.pattern last) n && !isHidden n
    if found.isEmpty then [text] else found.map (dir ++ ·)

def interpreterOptions? (content : List Char) : Option (List Char) :=
  match content with
  | '#' :: '!' :: r =>
    let words :=
      ((r.takeWhile (· != '\n')).splitBy fun a b => (a == ' ') == (b == ' ')).filter (· != [' '])
    let words := match words with
      | env :: r => if env == "/usr/bin/env".toList then r else words
      | [] => []
    match words with
    | program :: options =>
      let known :=
        ["/bin/sh", "/bin/dash", "/bin/bash", "/usr/bin/sh", "/usr/bin/dash", "/usr/bin/bash",
          "sh", "dash"]
      if known.contains (String.ofList program) then some options.flatten else none
    | [] => none
  | _ => none

inductive Launch where
  | script (text options : List Char)
  | failure (number : Nat)

def launchOf (m : Machine) (path : String) : Launch :=
  match m.tree.find m.cwd path with
  | .error (.system n) => .failure n
  | .error _ => .failure SystemError.noSuchEntry
  | .ok .directory => .failure SystemError.permissionDenied
  | .ok (.file content executable) =>
    if !executable then .failure SystemError.permissionDenied
    else
      let text := ofBytes content
      if "#!".toList.isPrefixOf text then
        match interpreterOptions? text with
        | some options => .script text options
        | none => .failure SystemError.noSuchEntry
      else .failure SystemError.badExecutable

/-- The files that a program's name may mean: itself if it has a slash, else one in each directory
of the path. -/
def candidates (searchPath : List String) (name : String) : List String :=
  if name.toList.contains '/' then [name] else searchPath.map (Path.join · name)

mutual

def glyphsOf : Nat → Word → Effect (List Glyph)
  | 0, _ => return []
  | _, [] => return []
  | fuel + 1, p :: ps => do
    let first ← partGlyphs fuel p
    return first ++ (← glyphsOf fuel ps)

def partGlyphs : Nat → Part → Effect (List Glyph)
  | 0, _ => return []
  | fuel + 1, p => do
    match p with
    | .plain t => return Glyph.ofScript false t
    | .quoted t => return if t.isEmpty then [.present] else Glyph.ofScript true t
    | .output guarded script => return Glyph.ofValue guarded (← outputOf fuel script)
    | .arithmetic expression =>
      let text ← quotedText fuel expression
      match Arithmetic.evaluate (← get).bindings text with
      | .ok (v, bindings) =>
        modify fun s => { s with bindings }
        return Glyph.ofValue true (toString v).toList
      | .error .divisionByZero =>
        abandon s!"arithmetic expression: division by zero: \"{toText text}\""
        return []
      | .error .malformed =>
        abandon s!"arithmetic expression: expecting primary: \"{toText text}\""
        return []
      | .error (.illegalNumber t) =>
        abandon s!"Illegal number: {toText t}"
        return []
    | .parameter guarded name change => parameterGlyphs fuel guarded name change

def parameterGlyphs : Nat → Bool → List Char → Change → Effect (List Glyph)
  | 0, _, _, _ => return []
  | fuel + 1, guarded, name, change => do
    let s ← get
    let value := s.parameter? name
    let lacks (colon : Bool) : Bool := match value with
      | none => true
      | some v => colon && v.isEmpty
    let plain : Effect (List Glyph) := do
      if name = ['@'] ∨ name = ['*'] then return s.allArguments guarded name (← Utility.separators)
      else if value.isNone && s.stopsOnUnset then
        abandon s!"{toText name}: parameter not set"
        return []
      else return Glyph.ofValue guarded (value.getD [])
    let alternative (word : List Char) : Effect (List Glyph) := do
      match if guarded then asQuoted word else asWord word with
      | .ok w => return (← glyphsOf fuel w).map fun
        | .char c g _ => .char c g (!g)
        | g => g
      | .error e =>
        abandon e.message
        return []
    match change with
    | .value => plain
    | .length => return Glyph.ofValue guarded (toString (value.getD []).length).toList
    | .orElse colon word => if lacks colon then alternative word else plain
    | .instead colon word => if lacks colon then return [] else alternative word
    | .orAssign colon word =>
      if lacks colon then
        let g ← alternative word
        setVariable name (Glyph.text g)
        return g
      else plain
    | .orFail colon word =>
      if lacks colon then
        let g ← alternative word
        let missing := if colon then "parameter not set or null" else "parameter not set"
        let text := if word.isEmpty then missing else toText (Glyph.text g)
        abandon s!"{toText name}: {text}"
        return []
      else plain
    | .withoutStart longest pattern =>
      let g ← alternative pattern
      return Glyph.ofValue guarded (Atom.withoutStart longest (Atom.pattern g) (value.getD []))
    | .withoutEnd longest pattern =>
      let g ← alternative pattern
      return Glyph.ofValue guarded (Atom.withoutEnd longest (Atom.pattern g) (value.getD []))

def quotedText : Nat → List Char → Effect (List Char)
  | 0, _ => return []
  | fuel + 1, text => do
    match asQuoted text with
    | .ok w => return Glyph.text (← glyphsOf fuel w)
    | .error e =>
      abandon e.message
      return []

def outputOf : Nat → List Char → Effect (List Char)
  | 0, _ => return []
  | fuel + 1, text => do
    let n ← newSink
    let before ← get
    inSubshell do
      setChannel 1 (.sink n)
      runScript fuel text
    modify fun s =>
      { s with outputStatus := some s.status, status := before.status, line := before.line }
    return ((← collected n).reverse.dropWhile (· == '\n')).reverse.filter (· != '\x00')

def runScript : Nat → List Char → Effect Unit
  | 0, _ => setFlow (.killed 9)
  | fuel + 1, text => do
    let script := Script.read text
    runAll fuel script.commands
    match script.fault with
    | some e =>
      if ← goesOn then
        modify fun s => { s with line := e.line.getD script.lineCount }
        abandon e.cause.message
    | none => return

def runAll : Nat → List Command → Effect Unit
  | 0, _ => setFlow (.killed 9)
  | _, [] => return
  | fuel + 1, c :: cs => do
    run fuel c
    if ← goesOn then runAll fuel cs

def fieldsOf : Nat → List Word → Effect (List (List Char))
  | 0, _ => return []
  | _, [] => return []
  | fuel + 1, w :: ws => do
    let fields := Glyph.fields (← Utility.separators) (← glyphsOf fuel w)
    let s ← get
    let paths := fields.flatMap s.matching
    return paths ++ (← fieldsOf fuel ws)

def textOf : Nat → Word → Effect (List Char)
  | 0, _ => return []
  | fuel + 1, w => do return Glyph.text (← glyphsOf fuel w)

def opened : Nat → Redirection → Effect (Except String (Option Channel))
  | 0, _ => return .ok none
  | fuel + 1, r => do
    match r with
    | .input w => return (← openInput (← textOf fuel w)).map some
    | .output w => return (← openOutput true (← textOf fuel w)).map some
    | .append w => return (← openOutput false (← textOf fuel w)).map some
    | .text w => return .ok (some (.source (← newSource (← textOf fuel w))))
    | .duplicate w =>
      let target ← textOf fuel w
      if target = ['-'] then return .ok none
      match Arithmetic.valueIn? 10 target with
      | some n =>
        match ← channel? n with
        | some c => return .ok (some c)
        | none => return .error s!"{n}: Bad file descriptor"
      | none => return .error "Bad fd number"

/-- Makes the descriptors lead where the redirections say, up to the first that fails. -/
def redirect : Nat → List Redirect → Effect Bool
  | 0, _ => return false
  | _, [] => return true
  | fuel + 1, r :: rs => do
    match ← opened fuel r.redirection with
    | .ok (some c) =>
      setChannel r.descriptor c
      redirect fuel rs
    | .ok none =>
      modify fun s => { s with channels := s.channels.filter fun c => c.1 ≠ r.descriptor }
      redirect fuel rs
    | .error e =>
      complain e
      setStatus 2
      return false

def assignAll : Nat → List (List Char × Word) → Effect Unit
  | 0, _ => return
  | _, [] => return
  | fuel + 1, (name, w) :: rest => do
    setVariable name (← textOf fuel w)
    assignAll fuel rest

def run : Nat → Command → Effect Unit
  | 0, _ => setFlow (.killed 9)
  | fuel + 1, c => do
    let stopIfFailed : Effect Unit := do
      let s ← get
      if s.stopsOnFailure && !s.isTested && s.status ≠ 0 && s.flow = .next then setFlow .exit
    match c with
    | .simple line assignments words redirects =>
      modify fun s => { s with line }
      runSimple fuel assignments words redirects
      stopIfFailed
    | .pipeline negated commands =>
      if negated then
        testing fuel commands.head?
        if commands.length > 1 then runPipeline fuel commands
        modify fun s => { s with status := if s.status = 0 then 1 else 0 }
      else
        runPipeline fuel commands
        stopIfFailed
    | .both a b =>
      testing fuel (some a)
      let s ← get
      if s.flow = .next ∧ s.status = 0 then run fuel b
    | .either a b =>
      testing fuel (some a)
      let s ← get
      if s.flow = .next ∧ s.status ≠ 0 then run fuel b
    | .sequence cs => runAll fuel cs
    | .subshell body =>
      inSubshell (run fuel body)
      stopIfFailed
    | .group body => run fuel body
    | .choice test yes no =>
      testing fuel (some test)
      let s ← get
      if s.flow = .next then
        if s.status = 0 then run fuel yes
        else
          setStatus 0
          run fuel no
    | .loop stopsOn test body => rounds fuel stopsOn test body 0
    | .forEach name words body =>
      let values ← match words with
        | some ws => fieldsOf fuel ws
        | none => pure (← get).arguments
      setStatus 0
      forValues fuel name values body
    | .cases w branches =>
      let text ← textOf fuel w
      setStatus 0
      branch fuel text branches
    | .define name body =>
      modify fun s =>
        { s with functions := (name, body) :: s.functions.filter fun f => f.1 ≠ name, status := 0 }
    | .redirected line body redirects =>
      keepingChannels do
        modify fun s => { s with line }
        if ← redirect fuel redirects then run fuel body

def testing : Nat → Option Command → Effect Unit
  | 0, _ => setFlow (.killed 9)
  | _, none => return
  | fuel + 1, some c => do
    let before := (← get).isTested
    modify fun s => { s with isTested := true }
    run fuel c
    modify fun s => { s with isTested := before }

def rounds : Nat → Bool → Command → Command → Nat → Effect Unit
  | 0, _, _, _, _ => setFlow (.killed 9)
  | fuel + 1, stopsOn, test, body, last => do
    testing fuel (some test)
    if ← inLoop then
      if ((← get).status = 0) = stopsOn then setStatus last
      else
        run fuel body
        if ← inLoop then rounds fuel stopsOn test body (← get).status

def inLoop : Effect Bool := do
  match (← get).flow with
  | .next => return true
  | .nextRound n =>
    setFlow (if n ≤ 1 then .next else .nextRound (n - 1))
    return n ≤ 1
  | .leaveLoops n =>
    setFlow (if n ≤ 1 then .next else .leaveLoops (n - 1))
    return false
  | _ => return false

def forValues : Nat → List Char → List (List Char) → Command → Effect Unit
  | 0, _, _, _ => setFlow (.killed 9)
  | _, _, [], _ => return
  | fuel + 1, name, v :: vs, body => do
    setVariable name v
    run fuel body
    if ← inLoop then forValues fuel name vs body

def branch : Nat → List Char → List (List Word × Command) → Effect Unit
  | 0, _, _ => return
  | _, _, [] => return
  | fuel + 1, text, (patterns, body) :: rest => do
    if ← anyMatches fuel text patterns then run fuel body else branch fuel text rest

def anyMatches : Nat → List Char → List Word → Effect Bool
  | 0, _, _ => return false
  | _, _, [] => return false
  | fuel + 1, text, w :: ws => do
    let g ← glyphsOf fuel w
    if Atom.fits (Atom.pattern g) text then return true else anyMatches fuel text ws

/-- Commands whose outputs are the inputs of the next ones, each in a shell of its own. -/
def runPipeline : Nat → List Command → Effect Unit
  | 0, _ => setFlow (.killed 9)
  | _, [] => return
  | fuel + 1, [c] => inSubshell (run fuel c)
  | fuel + 1, c :: d :: cs => do
    let n ← newSink
    inSubshell do
      setChannel 1 (.sink n)
      run fuel c
    let source ← newSource (← collected n)
    keepingChannels do
      setChannel 0 (.source source)
      runPipeline fuel (d :: cs)

/-- Redirections and assignments, and then the command that the words name. -/
def runSimple : Nat → List (List Char × Word) → List Word → List Redirect → Effect Unit
  | 0, _, _, _ => setFlow (.killed 9)
  | fuel + 1, assignments, words, redirects => do
    modify fun s => { s with outputStatus := none }
    let fields ← fieldsOf fuel words
    if !(← goesOn) then return
    match fields with
    | [] =>
      keepingChannels do
        if ← redirect fuel redirects then
          assignAll fuel assignments
          if ← goesOn then setStatus ((← get).outputStatus.getD 0)
    | name :: arguments =>
      if name = "exec".toList then
        if ← redirect fuel redirects then
          match arguments with
          | [] => setStatus 0
          | name :: arguments =>
            runNamed fuel name arguments
            if ← goesOn then setFlow .exit
        else setFlow .exit
      else
        let isSpecial := Utility.special.contains (String.ofList name)
        keepingChannels do
          if !(← redirect fuel redirects) then
            if isSpecial then setFlow .exit
          else
            if assignments.isEmpty then runNamed fuel name arguments
            else if isSpecial then
              assignAll fuel assignments
              runNamed fuel name arguments
            else
              let before := (← get).bindings
              assignAll fuel assignments
              runNamed fuel name arguments
              for (n, _) in assignments do
                restoreVariable n (before.lookup n)

def runNamed : Nat → List Char → List (List Char) → Effect Unit
  | 0, _, _ => setFlow (.killed 9)
  | fuel + 1, name, arguments => do
    let s ← get
    let key := String.ofList name
    if key = "eval" then runScript fuel ([' '].intercalate arguments)
    else if key = "command" then
      match arguments with
      | name :: arguments => runNamed fuel name arguments
      | [] => setStatus 0
    else
      match s.functions.lookup name with
      | some body => call fuel body arguments
      | none =>
        match Utility.ofShell.lookup key with
        | some utility => setStatus (← utility arguments)
        | none =>
          let path :=
            ((s.bindings.lookup "PATH".toList).getD []).splitBy (fun a b => a != ':' && b != ':')
          let dirs := (path.filter (· != [':'])).map toText
          match (candidates dirs (toText name)).find? (s.machine.tree.exists? s.machine.cwd ·) with
          | some file => runFile fuel file arguments
          | none =>
            match Utility.ofMachine.lookup key with
            | some utility => setStatus (← utility arguments)
            | none =>
              complain (toText name ++ ": not found")
              setStatus 127

def call : Nat → Command → List (List Char) → Effect Unit
  | 0, _, _ => setFlow (.killed 9)
  | fuel + 1, body, arguments => do
    let before ← get
    modify fun s => { s with arguments, hidden := [] }
    run fuel body
    for (name, value) in (← get).hidden do
      restoreVariable name value
    modify fun s => { s with
      arguments := before.arguments, hidden := before.hidden
      flow := if s.flow = .leaveFunction then .next else s.flow }

def runFile : Nat → String → List (List Char) → Effect Unit
  | 0, _, _ => setFlow (.killed 9)
  | fuel + 1, file, arguments => do
    match launchOf (← get).machine file with
    | .failure n =>
      complain s!"{file}: {SystemError.description n}"
      setStatus (if n = SystemError.noSuchEntry then 127 else 126)
    | .script text _ =>
      inSubshell do
        modify fun s =>
          { s with script := ofText file, arguments, functions := [], isTested := false }
        runScript fuel text
        modify fun s => match s.flow with
          | .killed n => { s with status := 128 + n, flow := .exit }
          | _ => s

end

def fuel : Nat := 1000000

/-- Runs a script in a file with nothing to read, and gives what it prints and how it ends. -/
def execute (file : String) (text options : List Char) (arguments : List String) (m : Machine) :
    ProcessResult × Machine :=
  let start : Session := {
    machine := m
    script := ofText file
    bindings := [
      ("PATH".toList, ofText (String.intercalate ":" m.searchPath)),
      ("PWD".toList, ofText m.cwdText), ("IFS".toList, " \t\n".toList)]
    arguments := arguments.map ofText
    channels := [(0, .source 0), (1, .sink 0), (2, .sink 1)]
    sources := #[[]]
    sinks := #[[], []]
    stopsOnFailure := options.contains 'e'
    stopsOnUnset := options.contains 'u' }
  let (_, s) := (runScript fuel text).run start
  let collectedBytes (n : Nat) : ByteArray := toBytes ((s.sinks[n]?).getD []).reverse
  let exitCode := match s.flow with
    | .killed _ => none
    | _ => some s.status
  (⟨collectedBytes 0, collectedBytes 1, exitCode⟩, { s.machine with cwd := m.cwd })

end NoiseTimeline.Shell
