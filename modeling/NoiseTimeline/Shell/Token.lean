import NoiseTimeline.Shell.Word

/-!
Tokens of a shell script: words, operators and the starts of redirections, each with the line it
stands on. The text of a redirection from the script itself is taken out of the lines that follow
it.
-/

namespace NoiseTimeline.Shell

inductive TokenKind where
  | word (parts : Word)
  /-- A control operator; a line feed is one. -/
  | operator (text : String)
  | redirect (descriptor : Nat) (text : String)
  /-- A redirection from a text that the script holds. -/
  | text (descriptor : Nat) (body : Word)
  | fault (cause : ReadFault)
  deriving DecidableEq

structure Token where
  line : Nat
  kind : TokenKind
  deriving DecidableEq

namespace Token

def controlOperators : List String := ["&&", "||", ";;", "&", "|", ";", "(", ")", "\n"]

def redirectOperators : List String := [">>", ">&", ">|", "<&", "<>", ">", "<"]

def leading? (operators : List String) (s : List Char) : Option (String × List Char) :=
  operators.findSome? fun o =>
    if o.toList.isPrefixOf s then some (o, s.drop o.toList.length) else none

/-- The lines of a text up to the one that is the delimiter, and what follows that line; without
such a line, all. -/
def untilDelimiter (tabs : Bool) (delimiter : List Char) :
    Nat → List Char → List Char → List Char × List Char
  | 0, acc, s => (acc, s)
  | fuel + 1, acc, s =>
    if s.isEmpty then (acc, [])
    else
      let whole := s.takeWhile (· != '\n')
      let line := if tabs then whole.dropWhile (· == '\t') else whole
      let rest := (s.drop whole.length).drop 1
      if line = delimiter then (acc, rest)
      else untilDelimiter tabs delimiter fuel (acc ++ line ++ ['\n']) rest

/-- The characters of a word with its quotes removed, and whether it had any. -/
def unquoted (w : Word) : List Char × Bool :=
  w.foldl (fun acc p =>
    match p with
    | .plain t => (acc.1 ++ t, acc.2)
    | .quoted t => (acc.1 ++ t, true)
    | _ => acc) ([], false)

/-- A token that has been read, what follows it, and the number of lines taken out of what
follows. -/
structure Found where
  kind : TokenKind
  rest : List Char
  taken : Nat := 0

/-- A redirection from the script: its text is taken out of the lines below. -/
def readText (descriptor : Nat) (s : List Char) : Except ReadFault Found := do
  let (tabs, s) := match s with
    | '-' :: r => (true, r)
    | _ => (false, s)
  let s := s.dropWhile fun c => c == ' ' || c == '\t'
  let (delimiter, s) ← readWord true (s.length + 1) [] s
  let (name, isQuoted) := unquoted delimiter
  let restOfLine := s.takeWhile (· != '\n')
  let below := (s.drop restOfLine.length).drop 1
  let (body, after) := untilDelimiter tabs name (below.length + 1) [] below
  let parts ← if isQuoted then pure [.quoted body] else asQuoted body
  return ⟨.text descriptor parts, restOfLine ++ '\n' :: after, below.count '\n' - after.count '\n'⟩

def ownDescriptor (operator : String) : Nat := if operator.toList.head? = some '<' then 0 else 1

def next (s : List Char) : Except ReadFault Found := do
  let digits := s.takeWhile Char.isDigit
  let after := s.drop digits.length
  let descriptor (own : Nat) : Nat :=
    if digits.isEmpty then own else (String.ofList digits).toNat?.getD own
  if "<<".toList.isPrefixOf after then readText (descriptor 0) (after.drop 2)
  else
    match leading? redirectOperators after with
    | some (operator, rest) =>
      return ⟨.redirect (descriptor (ownDescriptor operator)) operator, rest, 0⟩
    | none =>
      match leading? controlOperators s with
      | some (operator, rest) => return ⟨.operator operator, rest, 0⟩
      | none =>
        let (parts, rest) ← readWord true (s.length + 1) [] s
        return ⟨.word parts, rest, 0⟩

/-- The tokens of a script from a line on; a fault ends them. Lines that were taken out below the
line at hand are counted at its end. `fuel` bounds the number of tokens. -/
def readFrom : Nat → Nat → Nat → List Char → List Token
  | 0, _, _, _ => []
  | fuel + 1, line, taken, s =>
    match s with
    | [] => []
    | c :: r =>
      if c = ' ' ∨ c = '\t' then readFrom fuel line taken r
      else if c = '\\' ∧ r.head? = some '\n' then readFrom fuel (line + 1) taken (r.drop 1)
      else if c = '#' then readFrom fuel line taken (r.dropWhile (· != '\n'))
      else
        match next s with
        | .error e => [⟨line, .fault e⟩]
        | .ok found =>
          let here : Token := ⟨line, found.kind⟩
          if c = '\n' then here :: readFrom fuel (line + 1 + taken) 0 r
          else if found.taken > 0 then here :: readFrom fuel line (taken + found.taken) found.rest
          else
            let passed := s.take (s.length - found.rest.length)
            here :: readFrom fuel (line + passed.count '\n') taken found.rest

def read (script : List Char) : List Token := readFrom (script.length + 1) 1 0 script

end Token

end NoiseTimeline.Shell
