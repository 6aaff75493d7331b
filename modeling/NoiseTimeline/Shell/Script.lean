import NoiseTimeline.Shell.Command
import NoiseTimeline.Shell.Token

/-!
Scripts as commands. A script is read line by line: the commands before a fault are run, and then
the fault is reported.
-/

namespace NoiseTimeline.Shell

/-- A fault and the line that it stands on; without a line it is found at the end of the script. -/
structure PlacedFault where
  line : Option Nat
  cause : ReadFault

abbrev Reading := StateT (List Token) (Except PlacedFault)

namespace Reading

def peek : Reading (Option Token) := do return (← get).head?

def skip : Reading Unit := modify (List.drop 1)

def describe (t : Option Token) : String :=
  match t.map Token.kind with
  | none => "end of file"
  | some (.word w) =>
    match w.literal? with
    | some t => s!"\"{toText t}\""
    | none => "word"
  | some (.operator "\n") => "newline"
  | some (.operator o) => s!"\"{o}\""
  | some (.redirect _ o) => s!"\"{o}\""
  | some (.text _ _) => "redirection"
  | some (.fault e) => e.message

def unexpected {α : Type} (expected : Option String) : Reading α := do
  match ← peek with
  | some ⟨_, .fault .unterminatedQuote⟩ => throw ⟨none, .unterminatedQuote⟩
  | some ⟨line, .fault e⟩ => throw ⟨some line, e⟩
  | t => throw ⟨t.map Token.line, .unexpected (describe t) (expected.map fun e => s!"\"{e}\"")⟩

def isOperator (text : String) (t : Option Token) : Bool :=
  match t with
  | some ⟨_, .operator o⟩ => o == text
  | _ => false

def isReserved (text : String) (t : Option Token) : Bool :=
  match t with
  | some ⟨_, .word w⟩ => w.literal? == some text.toList
  | _ => false

def acceptOperator (text : String) : Reading Bool := do
  if isOperator text (← peek) then skip; return true else return false

def acceptReserved (text : String) : Reading Bool := do
  if isReserved text (← peek) then skip; return true else return false

def expectOperator (text : String) : Reading Unit := do
  if !(← acceptOperator text) then unexpected (some text)

def expectReserved (text : String) : Reading Unit := do
  if !(← acceptReserved text) then unexpected (some text)

def skipLines : Reading Unit := modify (List.dropWhile fun t => t.kind = .operator "\n")

def closers : List String := ["then", "else", "elif", "fi", "do", "done", "esac", "\x7d"]

def atEnd : Reading Bool := do
  match ← peek with
  | none => return true
  | some t =>
    return isOperator ")" (some t) || isOperator ";;" (some t) || closers.any fun c =>
      isReserved c (some t)

def theWord (expected : Option String) : Reading Word := do
  match ← peek with
  | some ⟨_, .word w⟩ => skip; return w
  | _ => unexpected expected

def assignment? (w : Word) : Option (List Char × Word) :=
  match w with
  | .plain t :: rest =>
    let name := t.takeWhile (· != '=')
    if isName name && name.length < t.length then
      let value := t.drop (name.length + 1)
      some (name, if value.isEmpty then rest else .plain value :: rest)
    else none
  | _ => none

def redirect? : Reading (Option Redirect) := do
  match ← peek with
  | some ⟨_, .text d body⟩ => skip; return some ⟨d, .text body⟩
  | some ⟨_, .redirect d o⟩ =>
    skip
    let w ← theWord none
    return some ⟨d, match o with
      | "<" | "<>" => .input w
      | ">>" => .append w
      | ">&" | "<&" => .duplicate w
      | _ => .output w⟩
  | _ => return none

/-- The redirections that follow a compound command; `fuel` bounds their number. -/
def redirects : Nat → Reading (List Redirect)
  | 0 => return []
  | fuel + 1 => do
    match ← redirect? with
    | some r => return r :: (← redirects fuel)
    | none => return []

structure SimpleParts where
  assignments : List (List Char × Word) := []
  words : List Word := []
  redirects : List Redirect := []

def simpleParts : Nat → SimpleParts → Reading SimpleParts
  | 0, acc => return acc
  | fuel + 1, acc => do
    match ← redirect? with
    | some r => simpleParts fuel { acc with redirects := acc.redirects ++ [r] }
    | none =>
      match ← peek with
      | some ⟨_, .word w⟩ =>
        skip
        match (if acc.words.isEmpty then assignment? w else none) with
        | some a => simpleParts fuel { acc with assignments := acc.assignments ++ [a] }
        | none => simpleParts fuel { acc with words := acc.words ++ [w] }
      | _ => return acc

/-- Words up to the end of a line or a semicolon; `fuel` bounds their number. -/
def wordsToEnd : Nat → Reading (List Word)
  | 0 => return []
  | fuel + 1 => do
    match ← peek with
    | some ⟨_, .word w⟩ => skip; return w :: (← wordsToEnd fuel)
    | _ => return []

def patterns : Nat → Reading (List Word)
  | 0 => return []
  | fuel + 1 => do
    let w ← theWord none
    if ← acceptOperator "|" then return w :: (← patterns fuel) else return [w]

def name : Reading (List Char) := do
  match ← peek with
  | some ⟨line, .word w⟩ =>
    skip
    match w.literal?.filter fun n => isName n with
    | some n => return n
    | none => throw ⟨some line, .badName⟩
  | _ => unexpected none

mutual

def list : Nat → Reading Command
  | 0 => return .sequence []
  | fuel + 1 => do
    skipLines
    let first ← conditional fuel
    let rest ← moreOfList fuel
    return .sequence (first :: rest)

def moreOfList : Nat → Reading (List Command)
  | 0 => return []
  | fuel + 1 => do
    if (← acceptOperator ";") || (← acceptOperator "&") || (← acceptOperator "\n") then
      skipLines
      if ← atEnd then return []
      let next ← conditional fuel
      return next :: (← moreOfList fuel)
    else if ← atEnd then return []
    else unexpected none

def conditional : Nat → Reading Command
  | 0 => return .sequence []
  | fuel + 1 => do moreOfConditional fuel (← pipeline fuel)

def moreOfConditional : Nat → Command → Reading Command
  | 0, acc => return acc
  | fuel + 1, acc => do
    if ← acceptOperator "&&" then
      skipLines
      moreOfConditional fuel (.both acc (← pipeline fuel))
    else if ← acceptOperator "||" then
      skipLines
      moreOfConditional fuel (.either acc (← pipeline fuel))
    else return acc

def pipeline : Nat → Reading Command
  | 0 => return .sequence []
  | fuel + 1 => do
    let negated ← acceptReserved "!"
    let first ← command fuel
    let rest ← moreOfPipeline fuel
    return if !negated && rest.isEmpty then first else .pipeline negated (first :: rest)

def moreOfPipeline : Nat → Reading (List Command)
  | 0 => return []
  | fuel + 1 => do
    if ← acceptOperator "|" then
      skipLines
      let next ← command fuel
      return next :: (← moreOfPipeline fuel)
    else return []

def command : Nat → Reading Command
  | 0 => return .sequence []
  | fuel + 1 => do
    let line := ((← peek).map Token.line).getD 0
    match ← compound? fuel with
    | some body =>
      match ← redirects (fuel + 1) with
      | [] => return body
      | rs => return .redirected line body rs
    | none =>
      if (← atEnd) then unexpected none
      let parts ← simpleParts ((← get).length + 1) {}
      match parts.assignments, parts.words, parts.redirects with
      | [], [], [] => unexpected none
      | [], [w], [] =>
        if ← acceptOperator "(" then
          expectOperator ")"
          skipLines
          match w.literal? with
          | some n => return .define n (← command fuel)
          | none => throw ⟨some line, .badName⟩
        else return .simple line [] [w] []
      | assignments, words, redirects => return .simple line assignments words redirects

def compound? : Nat → Reading (Option Command)
  | 0 => return none
  | fuel + 1 => do
    if ← acceptOperator "(" then
      let body ← list fuel
      expectOperator ")"
      return some (.subshell body)
    else if ← acceptReserved "\x7b" then
      let body ← list fuel
      expectReserved "\x7d"
      return some (.group body)
    else if ← acceptReserved "if" then
      return some (← choice fuel)
    else if ← acceptReserved "while" then
      let test ← list fuel
      return some (.loop false test (← doGroup fuel))
    else if ← acceptReserved "until" then
      let test ← list fuel
      return some (.loop true test (← doGroup fuel))
    else if ← acceptReserved "for" then
      let variable_ ← name
      skipLines
      let words ← if ← acceptReserved "in" then pure (some (← wordsToEnd ((← get).length + 1)))
          else pure none
      let _ ← acceptOperator ";"
      skipLines
      return some (.forEach variable_ words (← doGroup fuel))
    else if ← acceptReserved "case" then
      let w ← theWord none
      skipLines
      expectReserved "in"
      skipLines
      return some (.cases w (← branches fuel))
    else return none

def choice : Nat → Reading Command
  | 0 => return .sequence []
  | fuel + 1 => do
    let test ← list fuel
    expectReserved "then"
    let yes ← list fuel
    if ← acceptReserved "elif" then return .choice test yes (← choice fuel)
    else if ← acceptReserved "else" then
      let no ← list fuel
      expectReserved "fi"
      return .choice test yes no
    else
      expectReserved "fi"
      return .choice test yes (.sequence [])

def doGroup : Nat → Reading Command
  | 0 => return .sequence []
  | fuel + 1 => do
    expectReserved "do"
    let body ← list fuel
    expectReserved "done"
    return body

def branches : Nat → Reading (List (List Word × Command))
  | 0 => return []
  | fuel + 1 => do
    if ← acceptReserved "esac" then return []
    let _ ← acceptOperator "("
    let ps ← patterns ((← get).length + 1)
    expectOperator ")"
    skipLines
    let body ← if ← atEnd then pure (.sequence []) else list fuel
    if ← acceptOperator ";;" then
      skipLines
      return (ps, body) :: (← branches fuel)
    else
      expectReserved "esac"
      return [(ps, body)]

end

def line (fuel : Nat) : Reading Command := do
  let first ← conditional fuel
  let rec more : Nat → Reading (List Command)
    | 0 => return []
    | steps + 1 => do
      if (← acceptOperator ";") || (← acceptOperator "&") then
        match ← peek with
        | none => return []
        | some t =>
          if t.kind = .operator "\n" then return []
          let next ← conditional fuel
          return next :: (← more steps)
      else
        match ← peek with
        | none => return []
        | some t => if t.kind = .operator "\n" then return [] else unexpected none
  return .sequence (first :: (← more fuel))

/-- The commands of the lines up to a fault, and the fault with its line. -/
def lines : Nat → List Token → List Command × Option PlacedFault
  | 0, _ => ([], none)
  | fuel + 1, tokens =>
    let tokens := tokens.dropWhile fun t => t.kind = .operator "\n"
    match tokens with
    | [] => ([], none)
    | _ :: _ =>
      match (line (20 * tokens.length + 20)).run tokens with
      | .error e => ([], some e)
      | .ok (c, rest) =>
        let (cs, fault) := lines fuel rest
        (c :: cs, fault)

end Reading

/-- A script that has been read: its commands, one for each line, up to a fault if there is one. -/
structure Script where
  commands : List Command
  fault : Option PlacedFault
  lineCount : Nat

def Script.read (text : List Char) : Script :=
  let tokens := Token.read text
  let (commands, fault) := Reading.lines (tokens.length + 1) tokens
  ⟨commands, fault, text.count '\n' + 1⟩

end NoiseTimeline.Shell
