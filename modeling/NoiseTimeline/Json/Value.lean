import NoiseTimeline.Number.Decimal
import NoiseTimeline.Text.Lines
import NoiseTimeline.Text.Quoted

/-!
JSON values as they are written: on one line without blanks, or with two spaces of indentation per
level.
-/

namespace NoiseTimeline

inductive Json where
  | null
  | bool (b : Bool)
  | count (n : Nat)
  | real (x : Binary64)
  | text (s : String)
  | list (items : List Json)
  | record (fields : List (String × Json))

namespace Json

def option {α : Type} (f : α → Json) : Option α → Json
  | none => .null
  | some a => f a

/-- Quotes, backslashes and control characters are escaped, all else stands for itself. -/
def escapedChar (c : Char) : List Char :=
  match c with
  | '"' => ['\\', '"']
  | '\\' => ['\\', '\\']
  | '\n' => ['\\', 'n']
  | '\r' => ['\\', 'r']
  | '\t' => ['\\', 't']
  | '\x08' => ['\\', 'b']
  | '\x0c' => ['\\', 'f']
  | c =>
    if c.toNat < 0x20 then
      ['\\', 'u', '0', '0', Text.hexDigit (c.toNat / 16), Text.hexDigit (c.toNat % 16)]
    else [c]

def quotedText (s : String) : String := String.ofList ('"' :: s.toList.flatMap escapedChar ++ ['"'])

/-- What is no number in JSON is written as null. -/
def realText (x : Binary64) : String := if x.isFinite then String.ofList x.scientific else "null"

def boolText (b : Bool) : String := if b then "true" else "false"

mutual

def compact : Json → String
  | .null => "null"
  | .bool b => boolText b
  | .count n => toString n
  | .real x => realText x
  | .text s => quotedText s
  | .list items => "[" ++ Text.joined "," (compactItems items) ++ "]"
  | .record fields => "\x7b" ++ Text.joined "," (compactFields fields) ++ "\x7d"

def compactItems : List Json → List String
  | [] => []
  | j :: rest => j.compact :: compactItems rest

def compactFields : List (String × Json) → List String
  | [] => []
  | (name, j) :: rest => (quotedText name ++ ":" ++ j.compact) :: compactFields rest

end

def indentation (depth : Nat) : String := String.ofList (List.replicate (2 * depth) ' ')

def block (opening closing : String) (depth : Nat) (items : List String) : String :=
  if items.isEmpty then opening ++ closing
  else
    opening ++ "\n" ++ Text.joined ",\n" (items.map (indentation (depth + 1) ++ ·)) ++ "\n" ++
      indentation depth ++ closing

mutual

def prettyAt (depth : Nat) : Json → String
  | .null => "null"
  | .bool b => boolText b
  | .count n => toString n
  | .real x => realText x
  | .text s => quotedText s
  | .list items => block "[" "]" depth (prettyItems (depth + 1) items)
  | .record fields => block "\x7b" "\x7d" depth (prettyFields (depth + 1) fields)

def prettyItems (depth : Nat) : List Json → List String
  | [] => []
  | j :: rest => j.prettyAt depth :: prettyItems depth rest

def prettyFields (depth : Nat) : List (String × Json) → List String
  | [] => []
  | (name, j) :: rest => (quotedText name ++ ": " ++ j.prettyAt depth) :: prettyFields depth rest

end

def pretty (j : Json) : String := j.prettyAt 0

end Json

end NoiseTimeline
