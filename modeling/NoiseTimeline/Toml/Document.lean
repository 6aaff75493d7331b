import NoiseTimeline.Toml.Reader

/-!
A TOML document that can be edited: its data, and the text that spells it with all blanks and
comments. Removing a top-level key removes the lines that set it and leaves the other lines as they
are.
-/

namespace NoiseTimeline.Toml

/-- A line that gives a key its value. `lead` is what stands before the key since the line before,
and `value` all that follows the equals sign. -/
structure Assignment where
  lead : List Char
  key : List KeyPart
  value : List Char

/-- A line that opens a table, with what stands before it and what follows its brackets. -/
structure Header where
  lead : List Char
  isArray : Bool
  key : List KeyPart
  trail : List Char

structure Section where
  header : Header
  body : List Assignment

structure Document where
  start : List Assignment := []
  sections : List Section := []
  tail : List Char := []
  fields : Fields := []

def names (key : List KeyPart) : List String := key.map KeyPart.name

namespace Document

def editRange : IntegerRange := ⟨-0x8000000000000000, 0x7fffffffffffffff⟩

def readRange : IntegerRange :=
  ⟨-0x80000000000000000000000000000000, 0xffffffffffffffffffffffffffffffff⟩

def untilLineEnd (s rest : List Char) : List Char := s.take (s.length - rest.length)

def addLine (a : Assignment) : List Section → List Section
  | [] => []
  | [s] => [{ s with body := s.body ++ [a] }]
  | s :: r => s :: addLine a r

def place (d : Document) : List String :=
  match d.sections.getLast? with
  | some s => names s.header.key
  | none => []

/-- One line that gives a key its value, after `lead`; the line end is left. -/
def readAssignment? (range : IntegerRange) (d : Document) (lead s : List Char) :
    Option (Document × List Char) := do
  let (key, r) ← key? (s.length + 1) s
  let r ← expect? '=' r
  let (v, rest) ← value? range (2 * r.length + 2) 0 (r.dropWhile isSpace)
  let rest ← afterLine? rest
  let fields ← Fields.within? (Fields.assign? v (names key)) d.place d.fields
  let line : Assignment := ⟨lead, key, untilLineEnd r rest⟩
  let d := { d with fields }
  return (if d.sections.isEmpty then { d with start := d.start ++ [line] }
    else { d with sections := addLine line d.sections }, rest)

/-- One header, given what follows its opening brackets; the line end is left. -/
def readHeader? (isArray : Bool) (d : Document) (lead s : List Char) :
    Option (Document × List Char) := do
  let (key, r) ← key? (s.length + 1) s
  let r ← expect? ']' r
  let r ← if isArray then expect? ']' r else some r
  let rest ← afterLine? r
  let last ← (names key).getLast?
  let opened := if isArray then Fields.openNext? last else Fields.open? last
  let fields ← Fields.within? opened (names key).dropLast d.fields
  return ({ d with
    fields
    sections := d.sections ++ [⟨⟨lead, isArray, key, untilLineEnd r rest⟩, []⟩] }, rest)

/-- The document that a text continues; `fuel` bounds the number of lines. -/
def readFrom? (range : IntegerRange) : Nat → Document → List Char → Option Document
  | 0, _, _ => none
  | fuel + 1, d, s => do
    let rest ← gap? s
    let lead := untilLineEnd s rest
    let (d, rest) ← match rest with
      | [] => return { d with tail := lead }
      | '[' :: '[' :: r => readHeader? true d lead r
      | '[' :: r => readHeader? false d lead r
      | _ => readAssignment? range d lead rest
    readFrom? range fuel d ((afterLineEnd? rest).getD rest)

/-- The document that a text spells; a byte order mark in front does not count. -/
def read? (range : IntegerRange) (text : String) : Option Document :=
  let s := match text.toList with
    | '\ufeff' :: r => r
    | r => r
  readFrom? range (s.length + 2) {} s

def keys (d : Document) : List String := d.fields.map (·.1)

def startsWith (name : String) (key : List KeyPart) : Bool := (names key).head? == some name

def remove (name : String) (d : Document) : Document := { d with
  start := d.start.filter fun a => !startsWith name a.key
  sections := d.sections.filter fun s => !startsWith name s.header.key
  fields := d.fields.filter fun f => f.1 != name }

/-- Lines in the order in which they are written: those whose keys begin alike stand together, in
the place of the first of them. A line whose key has ended stands alone in its group. `depth` bounds
the parts of a key. -/
def arranged {α : Type} : Nat → List (List String × α) → List α
  | 0, lines => lines.map (·.2)
  | depth + 1, lines =>
    let heads :=
      (lines.filterMap fun l => l.1.head?).foldl
        (fun acc h => if acc.contains h then acc else acc ++ [h]) []
    lines.filterMap (fun l => if l.1.isEmpty then some l.2 else none) ++ heads.flatMap fun h =>
      arranged depth (lines.filterMap fun l =>
        if l.1.head? = some h then some (l.1.drop 1, l.2) else none)

def arrange (body : List Assignment) : List Assignment :=
  let depth := body.foldl (fun n a => max n a.key.length) 0
  arranged depth (body.map fun a => (names a.key, a))

/-- The first key among some that begins with the given names, cut off after them. -/
def firstWith? (keys : List (List KeyPart)) (start : List String) : Option KeyPart :=
  keys.findSome? fun k => if names (k.take start.length) = start then k[start.length - 1]? else none

/-- A key as it is written: every part but the last is spelled as it was when it first occurred. The
blanks before the first part and after the last one are those of the key itself. -/
def keyText (spellings : List String → Option KeyPart) (key : List KeyPart) : List Char :=
  let parts := (List.range key.length).filterMap fun i =>
    let own := key[i]?
    let part := if i + 1 = key.length then own else (spellings (names (key.take (i + 1)))).or own
    part.map fun p => (if i = 0 then [] else p.before) ++ p.spelling ++
      (if i + 1 = key.length then [] else p.after)
  let before := (key.head?.map KeyPart.before).getD []
  let after := (key.getLast?.map KeyPart.after).getD []
  before ++ ['.'].intercalate parts ++ after

def bodyText (body : List Assignment) : List Char :=
  let spellings := firstWith? (body.map Assignment.key)
  (arrange body).flatMap fun a => a.lead ++ keyText spellings a.key ++ '=' :: a.value ++ ['\n']

/-- How a table's name is spelled in headers: as in its own, or else where it first occurs. -/
def headerSpelling (d : Document) (start : List String) : Option KeyPart :=
  let headers := d.sections.map fun s => s.header.key
  (firstWith? (headers.filter fun k => names k = start) start).or
    (firstWith? (d.start.map Assignment.key ++ headers) start)

def headerText (d : Document) (h : Header) : List Char :=
  let (opening, closing) := if h.isArray then (['[', '['], [']', ']']) else (['['], [']'])
  h.lead ++ opening ++ keyText d.headerSpelling h.key ++ closing ++ h.trail ++ ['\n']

/-- The text of a document. Lines end in a line feed alone. -/
def print (d : Document) : String :=
  let text :=
    bodyText d.start ++ (d.sections.flatMap fun s => headerText d s.header ++ bodyText s.body) ++
      d.tail
  String.ofList (text.filter (· != '\r'))

end Document

example : ((Document.read? Document.editRange "a=1\n# k\n[run]\nb.x = 2 # c\n[old]\n").map fun d =>
    ((d.remove "old").remove "a").print) = some "# k\n[run]\nb.x = 2 # c\n" := by decide +kernel

example : Document.arranged 3 [(["a", "x"], 1), (["b"], 2), (["a", "y", "z"], 3)] = [1, 3, 2] := by
  decide +kernel

end NoiseTimeline.Toml
