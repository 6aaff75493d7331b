import NoiseTimeline.Text.Quoted
import NoiseTimeline.Toml.Scalar

/-!
Texts of TOML in quotes. Double quotes admit escapes and single quotes none; three quotes admit line
feeds. A text is written in the plainest form that can hold it.
-/

namespace NoiseTimeline.Toml

/-- Control characters other than the tab, which no text may hold as they are. -/
def isControl (c : Char) : Bool := (c.toNat < 0x20 && c != '\t') || c.toNat == 0x7f

def unicode? (count : Nat) (s : List Char) : Option (Char × List Char) :=
  let ds := s.take count
  let n := inBase 16 ds
  if ds.length = count ∧ ds.all (isDigitOf 16) then
    if h : n.isValidChar then some (Char.ofNatAux n h, s.drop count) else none
  else none

/-- The character that an escape stands for, given what follows the backslash. -/
def unescape? (s : List Char) : Option (Char × List Char) :=
  match s with
  | 'b' :: r => some ('\x08', r)
  | 't' :: r => some ('\t', r)
  | 'n' :: r => some ('\n', r)
  | 'f' :: r => some ('\x0c', r)
  | 'r' :: r => some ('\r', r)
  | 'e' :: r => some ('\x1b', r)
  | '"' :: r => some ('"', r)
  | '\\' :: r => some ('\\', r)
  | 'x' :: r => unicode? 2 r
  | 'u' :: r => unicode? 4 r
  | 'U' :: r => unicode? 8 r
  | _ => none

def afterLineEnd? (s : List Char) : Option (List Char) :=
  match s with
  | '\n' :: r => some r
  | '\r' :: '\n' :: r => some r
  | _ => none

def isSpace (c : Char) : Bool := c == ' ' || c == '\t'

def basicFrom? : Nat → List Char → List Char → Option (List Char × List Char)
  | 0, _, _ => none
  | fuel + 1, acc, s =>
    match s with
    | [] => none
    | '"' :: r => some (acc.reverse, r)
    | '\\' :: r => do
      let (c, r) ← unescape? r
      basicFrom? fuel (c :: acc) r
    | c :: r => if isControl c then none else basicFrom? fuel (c :: acc) r

def literalFrom? (acc : List Char) : List Char → Option (List Char × List Char)
  | [] => none
  | c :: r =>
    if c = '\'' then some (acc.reverse, r) else if isControl c then none
    else literalFrom? (c :: acc) r

def skipWhite : Nat → List Char → List Char
  | 0, s => s
  | fuel + 1, s =>
    match afterLineEnd? s with
    | some r => skipWhite fuel r
    | none =>
      match s with
      | c :: r => if isSpace c then skipWhite fuel r else s
      | [] => []

/-- The rest of a text in three quotes, up to two of which may stand right before the closing
ones. -/
def longFrom? (quote : Char) : Nat → List Char → List Char → Option (List Char × List Char)
  | 0, _, _ => none
  | fuel + 1, acc, s =>
    match afterLineEnd? s with
    | some r => longFrom? quote fuel ('\n' :: acc) r
    | none =>
      match s with
      | [] => none
      | c :: r =>
        if c = quote then
          let run := s.takeWhile (· == quote)
          if run.length < 3 then longFrom? quote fuel (run ++ acc) (s.drop run.length)
          else if run.length ≤ 5 then some ((run.drop 3 ++ acc).reverse, s.drop run.length)
          else none
        else if c = '\\' ∧ quote = '"' then
          match unescape? r with
          | some (d, r) => longFrom? quote fuel (d :: acc) r
          | none =>
            match afterLineEnd? (r.dropWhile isSpace) with
            | some after => longFrom? quote fuel acc (skipWhite (after.length + 1) after)
            | none => none
        else if isControl c then none
        else longFrom? quote fuel (c :: acc) r

/-- A line end right after the opening quotes does not belong to the text. -/
def long? (quote : Char) (s : List Char) : Option (List Char × List Char) :=
  longFrom? quote (s.length + 1) [] ((afterLineEnd? s).getD s)

def quoted? (s : List Char) : Option (List Char × List Char) :=
  match s with
  | '"' :: '"' :: '"' :: r => long? '"' r
  | '\'' :: '\'' :: '\'' :: r => long? '\'' r
  | '"' :: r => basicFrom? (r.length + 1) [] r
  | '\'' :: r => literalFrom? [] r
  | _ => none

def longestRun (c : Char) (s : List Char) : Nat :=
  (s.foldl (fun (acc : Nat × Nat) d =>
    if d = c then (acc.1 + 1, max acc.2 (acc.1 + 1)) else (0, acc.2)) (0, 0)).2

def codeText (n : Nat) : List Char :=
  let ds := (Text.hexText n).map Char.toUpper
  List.replicate (4 - ds.length) '0' ++ ds

def escapeOf (c : Char) : List Char :=
  match c with
  | '\x08' => ['\\', 'b']
  | '\t' => ['\\', 't']
  | '\n' => ['\\', 'n']
  | '\x0c' => ['\\', 'f']
  | '\r' => ['\\', 'r']
  | '\\' => ['\\', '\\']
  | c => if isControl c then ['\\', 'u'] ++ codeText c.toNat else [c]

/-- A text with escapes, of which `run` quotes have just been written as they are; no more than
`limit` may be. -/
def escapedFrom (isLong : Bool) (limit run : Nat) : List Char → List Char
  | [] => []
  | c :: r =>
    if c = '"' then
      if limit ≤ run then '\\' :: '"' :: escapedFrom isLong limit 0 r
      else '"' :: escapedFrom isLong limit (run + 1) r
    else if c = '\n' ∧ isLong then '\n' :: escapedFrom isLong limit 0 r
    else escapeOf c ++ escapedFrom isLong limit 0 r

def basic (s : List Char) : List Char := '"' :: escapedFrom false 0 0 s ++ ['"']

def literal (s : List Char) : List Char := '\'' :: s ++ ['\'']

/-- Three quotes around a text; a text of several lines starts on a line of its own. -/
def long (quote : Char) (s body : List Char) : List Char :=
  let quotes := List.replicate 3 quote
  quotes ++ (if s.contains '\n' then ['\n'] else []) ++ body ++ quotes

def quotedText (s : List Char) : List Char :=
  let needsCodes := s.any fun c => isControl c && c != '\n'
  let needsEscapes := s.contains '\\'
  let hasLines := s.contains '\n'
  let singles := longestRun '\'' s
  let doubles := longestRun '"' s
  let longEscaped := long '"' s (escapedFrom true 2 0 s)
  if !needsCodes && !needsEscapes && doubles = 0 && !hasLines then basic s
  else if !needsCodes && singles = 0 && !hasLines then literal s
  else if !needsCodes && !needsEscapes && doubles ≤ 2 then longEscaped
  else if !needsCodes && singles ≤ 2 then long '\'' s s
  else if hasLines then longEscaped
  else basic s

example : String.ofList (quotedText "both ' and \"".toList) = "\"\"\"both ' and \"\"\"\"" := by
  decide +kernel

example : quoted? "\"a\\tb\" rest".toList = some ("a\tb".toList, " rest".toList) := by
  decide +kernel

end NoiseTimeline.Toml
