import NoiseTimeline.Toml.Quoted

/-!
TOML values and keys read from text, and the blanks and comments between them. Lists and tables may
be nested to a fixed depth.
-/

namespace NoiseTimeline.Toml

/-- What follows a comment, given what follows its sign; the line end is left. -/
def afterComment? (s : List Char) : Option (List Char) :=
  match s.dropWhile fun c => !isControl c with
  | [] => some []
  | r => if (afterLineEnd? r).isSome then some r else none

/-- What follows blanks, comments and line ends; `fuel` bounds their number. -/
def afterGap? : Nat → List Char → Option (List Char)
  | 0, s => some s
  | fuel + 1, s =>
    match afterLineEnd? s with
    | some r => afterGap? fuel r
    | none =>
      match s with
      | '#' :: r => do afterGap? fuel (← afterComment? r)
      | c :: r => if isSpace c then afterGap? fuel r else some s
      | [] => some []

def gap? (s : List Char) : Option (List Char) := afterGap? (s.length + 1) s

/-- What follows a line's last blanks and its comment, with the line end left. -/
def afterLine? (s : List Char) : Option (List Char) := do
  let rest ← match s.dropWhile isSpace with
    | '#' :: r => afterComment? r
    | r => some r
  if rest.isEmpty ∨ (afterLineEnd? rest).isSome then some rest else none

/-- One part of a dotted key: what it names, how it is spelled, and the blanks around it. -/
structure KeyPart where
  before : List Char
  spelling : List Char
  after : List Char
  name : String
  deriving DecidableEq

def isBare (c : Char) : Bool := c.isAlphanum || c == '_' || c == '-'

def keyPart? (s : List Char) : Option (KeyPart × List Char) := do
  let before := s.takeWhile isSpace
  let s := s.drop before.length
  let (name, rest) ← match s with
    | '"' :: r => basicFrom? (r.length + 1) [] r
    | '\'' :: r => literalFrom? [] r
    | _ =>
      if (s.takeWhile isBare).isEmpty then none else some (s.takeWhile isBare, s.dropWhile isBare)
  let after := rest.takeWhile isSpace
  return (⟨before, s.take (s.length - rest.length), after, String.ofList name⟩,
    rest.drop after.length)

def key? : Nat → List Char → Option (List KeyPart × List Char)
  | 0, _ => none
  | fuel + 1, s => do
    let (part, rest) ← keyPart? s
    match rest with
    | '.' :: r =>
      let (parts, r) ← key? fuel r
      return (part :: parts, r)
    | r => return ([part], r)

def depthLimit : Nat := 80

structure IntegerRange where
  low : Int
  high : Int

def endsScalar (c : Char) : Bool := " \t\n\r,]#".toList.contains c || c == '\x7d'

/-- A value without quotes or brackets. A single blank may stand between a date and a time. -/
def plain? (range : IntegerRange) (s : List Char) : Option (Tree × List Char) :=
  let first := s.takeWhile fun c => !endsScalar c
  let rest := s.drop first.length
  let spelled (t rest : List Char) : Option (Tree × List Char) :=
    (scalar? range.low range.high t).map fun v => (v, rest)
  match rest with
  | ' ' :: d :: r =>
    if isDigit d && afterDate? first = some [] then
      let second := (d :: r).takeWhile fun c => !endsScalar c
      spelled (first ++ ' ' :: second) ((d :: r).drop second.length)
    else spelled first rest
  | _ => spelled first rest

mutual

/-- A value and what follows it; `depth` is the number of lists and tables around it. -/
def value? (range : IntegerRange) : Nat → Nat → List Char → Option (Tree × List Char)
  | 0, _, _ => none
  | fuel + 1, depth, s =>
    match s with
    | '"' :: _ | '\'' :: _ => (quoted? s).map fun (t, r) => (.text (String.ofList t), r)
    | '[' :: r => if depth < depthLimit then items? range fuel (depth + 1) [] r else none
    | '\x7b' :: r => if depth < depthLimit then fields? range fuel (depth + 1) [] r else none
    | _ => plain? range s

def items? (range : IntegerRange) : Nat → Nat → List Tree → List Char → Option (Tree × List Char)
  | 0, _, _, _ => none
  | fuel + 1, depth, acc, s => do
    match ← gap? s with
    | ']' :: r => return (.list acc.reverse, r)
    | s =>
      let (v, s) ← value? range fuel depth s
      match ← gap? s with
      | ',' :: r => items? range fuel depth (v :: acc) r
      | ']' :: r => return (.list (v :: acc).reverse, r)
      | _ => none

def fields? (range : IntegerRange) : Nat → Nat → Fields → List Char → Option (Tree × List Char)
  | 0, _, _, _ => none
  | fuel + 1, depth, acc, s => do
    match ← gap? s with
    | '\x7d' :: r => return (.table .inlined acc, r)
    | s =>
      let (key, s) ← key? (s.length + 1) s
      let s ← expect? '=' s
      let (v, s) ← value? range fuel depth (s.dropWhile isSpace)
      let acc ← Fields.assign? v (key.map KeyPart.name) acc
      match ← gap? s with
      | ',' :: r => fields? range fuel depth acc r
      | '\x7d' :: r => return (.table .inlined acc, r)
      | _ => none

end

end NoiseTimeline.Toml
