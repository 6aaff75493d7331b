import NoiseTimeline.Config

/-!
The arguments of the command line. Options may stand before or after each other, those of the whole
program also before the command; none may be given twice at one level. Arguments are looked at from
left to right, and the first fault, or request for help or the version, decides.
-/

namespace NoiseTimeline

/-- What a run is asked for on the command line; what is missing is taken from the settings. -/
structure RunArguments where
  mode : Mode
  size : Nat
  property : NoiseProperty
  horizon : Option Nat
  threshold : Option Nat
  stride : Option Nat
  blockSize : Option Nat
  flits : Option String
  template : String
  results : Option String
  json : Bool
  deriving DecidableEq

inductive Task where
  | run (arguments : RunArguments)
  | plot (results out : Option String)
  | tool
  deriving DecidableEq

structure Invocation where
  settingsPath : String
  verbose : Bool
  task : Task
  deriving DecidableEq

inductive Request where
  | help
  | version
  | perform (i : Invocation)
  deriving DecidableEq

inductive UsageError where
  | unexpected (argument : String)
  | missingValue (option : String)
  | unexpectedValue (option : String)
  | invalidValue (option value : String)
  | repeated (option : String)
  | missingOption (option : String)
  | missingCommand
  deriving DecidableEq

def UsageError.message : UsageError → String
  | .unexpected argument => s!"unexpected argument '{argument}'"
  | .missingValue option => s!"option '--{option}' needs a value"
  | .unexpectedValue option => s!"option '--{option}' takes no value"
  | .invalidValue option value => s!"'{value}' is no value for option '--{option}'"
  | .repeated option => s!"option '--{option}' is given twice"
  | .missingOption option => s!"option '--{option}' is required"
  | .missingCommand => "a command is required"

namespace CommandLine

inductive ValueKind where
  | path
  | text
  /-- A count below a limit. With `signed` a zero may have a minus sign. -/
  | count (limit : Nat) (signed : Bool)
  | property
  deriving DecidableEq

structure OptionSpec where
  name : String
  value : Option ValueKind
  deriving DecidableEq

def readCount? (limit : Nat) (signed : Bool) (s : String) : Option Nat :=
  match s.toList with
  | '-' :: r => if signed && !r.isEmpty && r.all (· == '0') then some 0 else none
  | r => (readCount limit r).toOption

def ValueKind.accepts (value : String) : ValueKind → Bool
  | .path => !value.isEmpty
  | .text => true
  | .count limit signed => (readCount? limit signed value).isSome
  | .property => (NoiseProperty.ofToken? value).isSome

def programOptions : List OptionSpec := [⟨"config", some .path⟩, ⟨"verbose", none⟩]

def runOptions : List OptionSpec := [
  ⟨"size", some (.count halfWordLimit true)⟩, ⟨"property", some .property⟩,
  ⟨"horizon", some (.count wordLimit false)⟩, ⟨"threshold", some (.count halfWordLimit true)⟩,
  ⟨"stride", some (.count wordLimit false)⟩, ⟨"block-size", some (.count wordLimit false)⟩,
  ⟨"flits", some .text⟩, ⟨"template", some .path⟩, ⟨"results", some .path⟩, ⟨"json", none⟩]

def plotOptions : List OptionSpec := [⟨"results", some .path⟩, ⟨"out", some .path⟩]

def optionsOf? (command : String) : Option (List OptionSpec) :=
  match command with
  | "simulate" | "check" => some runOptions
  | "plot" => some plotOptions
  | "tool" => some []
  | _ => none

abbrev Given := List (String × String)

inductive Scan where
  | help
  | version
  | options (given : Given) (rest : List String)

/-- An option that has been read, unless it was given before or its value is none. -/
def Given.add (given : Given) (spec : OptionSpec) (value : String) : Except UsageError Given :=
  if (given.lookup spec.name).isSome then .error (.repeated spec.name)
  else
    match spec.value with
    | some kind =>
      if kind.accepts value then .ok (given ++ [(spec.name, value)])
      else .error (.invalidValue spec.name value)
    | none => .ok (given ++ [(spec.name, value)])

def isOption (argument : String) : Bool := argument.toList.head? == some '-' && argument != "-"

/-- The name of an option with two dashes, and the value that is attached to it. -/
def splitLong (argument : String) : String × Option String :=
  let s := argument.toList.drop 2
  let name := String.ofList (s.takeWhile (· != '='))
  match s.dropWhile (· != '=') with
  | [] => (name, none)
  | _ :: value => (name, some (String.ofList value))

def scanLetters (atTop : Bool) (given : Given) : List Char → Except UsageError (Given ⊕ Scan)
  | [] => .ok (.inl given)
  | 'h' :: _ => .ok (.inr .help)
  | 'v' :: r => do scanLetters atTop (← given.add ⟨"verbose", none⟩ "") r
  | c :: _ =>
    if c = 'V' ∧ atTop then .ok (.inr .version) else .error (.unexpected (String.ofList ['-', c]))

/-- Reads the options of one level. At the top level they end at the first other argument, which
names the command; elsewhere there is none. -/
def scan (atTop : Bool) (specs : List OptionSpec) (given : Given) :
    List String → Except UsageError Scan
  | [] => .ok (.options given [])
  | argument :: rest =>
    if !isOption argument then
      if atTop then .ok (.options given (argument :: rest)) else .error (.unexpected argument)
    else if argument = "--" then
      match rest with
      | [] => .ok (.options given [])
      | other :: _ => .error (.unexpected other)
    else if "--".toList.isPrefixOf argument.toList then
      let (name, attached) := splitLong argument
      if name = "help" then
        if attached.isSome then .error (.unexpectedValue name) else .ok .help
      else if name = "version" ∧ atTop then
        if attached.isSome then .error (.unexpectedValue name) else .ok .version
      else
        match specs.find? fun spec => spec.name = name with
        | none => .error (.unexpected argument)
        | some spec =>
          match spec.value, attached with
          | none, some _ => .error (.unexpectedValue name)
          | none, none => do scan atTop specs (← given.add spec "") rest
          | some _, some value => do scan atTop specs (← given.add spec value) rest
          | some _, none =>
            match rest with
            | [] => .error (.missingValue name)
            | value :: rest =>
              if isOption value then .error (.missingValue name)
              else do scan atTop specs (← given.add spec value) rest
    else
      match scanLetters atTop given (argument.toList.drop 1) with
      | .error e => .error e
      | .ok (.inr found) => .ok found
      | .ok (.inl given) => scan atTop specs given rest

namespace Given

def required (given : Given) (name : String) : Except UsageError String :=
  match given.lookup name with
  | some value => .ok value
  | none => .error (.missingOption name)

def has (given : Given) (name : String) : Bool := (given.lookup name).isSome

def count? (given : Given) (name : String) (limit : Nat) (signed : Bool) : Option Nat :=
  (given.lookup name).bind (readCount? limit signed)

end Given

def runArguments (mode : Mode) (given : Given) : Except UsageError RunArguments := do
  let size ← given.required "size"
  let property ← given.required "property"
  let template ← given.required "template"
  match readCount? halfWordLimit true size, NoiseProperty.ofToken? property with
  | some size, some property =>
    return {
      mode, size, property, template
      horizon := given.count? "horizon" wordLimit false
      threshold := given.count? "threshold" halfWordLimit true
      stride := given.count? "stride" wordLimit false
      blockSize := given.count? "block-size" wordLimit false
      flits := given.lookup "flits"
      results := given.lookup "results"
      json := given.has "json" }
  | none, _ => throw (.invalidValue "size" size)
  | _, none => throw (.invalidValue "property" property)

def task (command : String) (given : Given) : Except UsageError Task :=
  match command with
  | "simulate" => (runArguments .simulate given).map .run
  | "check" => (runArguments .check given).map .run
  | "plot" => .ok (.plot (given.lookup "results") (given.lookup "out"))
  | "tool" => .ok .tool
  | _ => .error (.unexpected command)

def defaultSettingsPath : String := ".config/psn.toml"

def read (arguments : List String) : Except UsageError Request := do
  match ← scan true programOptions [] arguments with
  | .help => return .help
  | .version => return .version
  | .options _ [] => throw .missingCommand
  | .options _ ["help"] => return .help
  | .options top (command :: rest) =>
    if command = "help" then
      match rest with
      | [topic] =>
        if topic = "help" ∨ (optionsOf? topic).isSome then return .help
        else throw (.unexpected topic)
      | _ => throw (.unexpected (rest.headD ""))
    match optionsOf? command with
    | none => throw (.unexpected command)
    | some specs =>
      match ← scan false (specs ++ programOptions) [] rest with
      | .help => return .help
      | .version => return .version
      | .options given _ =>
        return .perform {
          settingsPath :=
            ((given.lookup "config").or (top.lookup "config")).getD defaultSettingsPath
          verbose := given.has "verbose" || top.has "verbose"
          task := ← task command given }

example : (read ["-v", "tool", "--config=a"]).toOption = some (.perform ⟨"a", true, .tool⟩) := by
  decide +kernel

end CommandLine

end NoiseTimeline
