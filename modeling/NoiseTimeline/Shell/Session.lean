import NoiseTimeline.Shell.Command
import NoiseTimeline.Store.Machine

/-!
A running script: the machine it runs on, its variables and arguments, and what its descriptors lead
to. Texts that are read or collected outlive the descriptors and are numbered.
-/

namespace NoiseTimeline.Shell

inductive Channel where
  /-- Reads what is left of a numbered text. -/
  | source (number : Nat)
  /-- Adds to a numbered text. -/
  | sink (number : Nat)
  | file (at_ : Location)
  | nowhere
  deriving DecidableEq

inductive Flow where
  | next
  | leaveLoops (count : Nat)
  | nextRound (count : Nat)
  | leaveFunction
  | exit
  | killed (signal : Nat)
  deriving DecidableEq

abbrev Variables := List (List Char × List Char)

structure Session where
  machine : Machine
  script : List Char
  line : Nat := 0
  bindings : Variables := []
  arguments : List (List Char) := []
  functions : List (List Char × Command) := []
  /-- The values that the running function's own variables hide. -/
  hidden : List (List Char × Option (List Char)) := []
  channels : List (Nat × Channel) := []
  sources : Array (List Char) := #[]
  /-- Collected texts, in reverse. -/
  sinks : Array (List Char) := #[]
  status : Nat := 0
  /-- The status of the last script put into a word of the command at hand. -/
  outputStatus : Option Nat := none
  flow : Flow := .next
  stopsOnFailure : Bool := false
  stopsOnUnset : Bool := false
  /-- A failure of the command at hand is looked at by another. -/
  isTested : Bool := false

abbrev Effect := StateM Session

namespace Effect

def processNumber : List Char := "4242".toList

def setVariable (name value : List Char) : Effect Unit :=
  modify fun s => { s with bindings := (name, value) :: s.bindings.filter fun v => v.1 ≠ name }

def restoreVariable (name : List Char) (value : Option (List Char)) : Effect Unit :=
  modify fun s => { s with
    bindings := (value.map fun v => (name, v)).toList ++ s.bindings.filter fun v => v.1 ≠ name }

def setStatus (status : Nat) : Effect Unit := modify fun s => { s with status }

def setFlow (flow : Flow) : Effect Unit := modify fun s => { s with flow }

def channel? (descriptor : Nat) : Effect (Option Channel) :=
  do return (← get).channels.lookup descriptor

def write (descriptor : Nat) (text : List Char) : Effect Unit := do
  match ← channel? descriptor with
  | some (.sink n) => modify fun s => { s with sinks := s.sinks.modify n (text.reverseAux ·) }
  | some (.file at_) =>
    modify fun s =>
      let tree := match s.machine.tree.node? at_ with
        | some (.file content executable) =>
          s.machine.tree.put at_ (.file (content ++ toBytes text) executable)
        | _ => s.machine.tree
      { s with machine := { s.machine with tree } }
  | _ => return

def writeText (descriptor : Nat) (text : String) : Effect Unit := write descriptor (ofText text)

def readAll (descriptor : Nat) : Effect (List Char) := do
  match ← channel? descriptor with
  | some (.source n) =>
    let text := ((← get).sources[n]?).getD []
    modify fun s => { s with sources := s.sources.setIfInBounds n [] }
    return text
  | _ => return []

def complain (message : String) : Effect Unit := do
  let s ← get
  writeText 2 s!"{toText s.script}: {s.line}: {message}\n"

def abandon (message : String) : Effect Unit := do
  complain message
  modify fun s => { s with status := 2, flow := .exit }

def newSource (text : List Char) : Effect Nat := do
  let n := (← get).sources.size
  modify fun s => { s with sources := s.sources.push text }
  return n

def newSink : Effect Nat := do
  let n := (← get).sinks.size
  modify fun s => { s with sinks := s.sinks.push [] }
  return n

def collected (n : Nat) : Effect (List Char) := do return (((← get).sinks[n]?).getD []).reverse

def setChannel (descriptor : Nat) (channel : Channel) : Effect Unit :=
  modify fun s =>
    { s with channels := (descriptor, channel) :: s.channels.filter fun c => c.1 ≠ descriptor }

def keepingChannels {α : Type} (action : Effect α) : Effect α := do
  let before := (← get).channels
  let a ← action
  modify fun s => { s with channels := before }
  return a

/-- Runs something in a shell of its own: only files, texts and the status remain. -/
def inSubshell (action : Effect Unit) : Effect Unit := do
  let before ← get
  action
  modify fun s =>
    let flow := match s.flow with
      | .killed n => .killed n
      | _ => before.flow
    { before with
      machine := { s.machine with cwd := before.machine.cwd }
      sources := s.sources, sinks := s.sinks, status := s.status, flow }

def goesOn : Effect Bool := do return (← get).flow = .next

def errorText (e : IoError) : String :=
  match e with
  | .system number => SystemError.description number
  | e => e.message

def openInput (path : List Char) : Effect (Except String Channel) := do
  if path = "/dev/null".toList then return .ok (.source (← newSource []))
  let m := (← get).machine
  match m.tree.read m.cwd (toText path) with
  | .ok bytes => return .ok (.source (← newSource (ofBytes bytes)))
  | .error e =>
    if e = .system SystemError.isDirectory then return .ok (.source (← newSource []))
    else
      let cause := if e = .system SystemError.noSuchEntry then "No such file" else errorText e
      return .error s!"cannot open {toText path}: {cause}"

def openOutput (emptied : Bool) (path : List Char) : Effect (Except String Channel) := do
  if path = "/dev/null".toList then return .ok .nowhere
  if path = "/dev/stderr".toList then return .ok ((← channel? 2).getD .nowhere)
  if path = "/dev/stdout".toList then return .ok ((← channel? 1).getD .nowhere)
  let m := (← get).machine
  let name := toText path
  let isFile := match m.tree.find m.cwd name with
    | .ok (.file _ _) => true
    | _ => false
  match if isFile && !emptied then .ok m.tree
    else m.tree.create m.cwd name, m.tree.locate m.cwd name with
  | .ok tree, .ok at_ =>
    modify fun s => { s with machine := { s.machine with tree } }
    return .ok (.file at_)
  | .error e, _ | _, .error e =>
    let cause :=
      if e = .system SystemError.noSuchEntry then "Directory nonexistent" else errorText e
    return .error s!"cannot create {name}: {cause}"

end Effect

end NoiseTimeline.Shell
