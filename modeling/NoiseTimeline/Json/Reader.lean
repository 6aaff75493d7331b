import NoiseTimeline.Number.Literal
import NoiseTimeline.Text.Quoted

/-!
JSON text. Reading gives a tree that keeps numbers as they are spelled and texts as far as their
escapes name characters, because a value that nobody asks for may be out of range. The tree is then
asked for counts, real numbers, texts, records and so on.
-/

namespace NoiseTimeline

/-- A number as it is spelled: sign, digits before the point, digits after it, and the exponent. -/
structure JsonNumber where
  negative : Bool
  whole : List Char
  places : Option (List Char)
  exponent : Option (Bool × List Char)

/-- A value as it is read. A text is missing when its escapes do not form characters. -/
inductive JsonTree where
  | null
  | bool (b : Bool)
  | number (n : JsonNumber)
  | text (s : Option String)
  | list (items : List JsonTree)
  | record (fields : List (Option String × JsonTree))

namespace JsonNumber

/-- The digits that a word can hold, taken from the left, and those that are left over. -/
def absorb (n : Nat) : List Char → Nat × List Char
  | [] => (n, [])
  | c :: s =>
    let m := 10 * n + (digitValue? c).getD 0
    if m < wordLimit then absorb m s else (n, c :: s)

def exponentLimit : Nat := 0x80000000

/-- Divides by powers of ten that a number can hold, or multiplies by one; each step rounds. -/
def scale : Nat → Binary64 → Int → Option Binary64
  | 0, _, _ => none
  | fuel + 1, x, e =>
    if e.natAbs ≤ 308 then
      let power := Binary64.ofDecimal false 1 e.natAbs
      if 0 ≤ e then
        let product := x.mulMagnitudes power
        if product.isInfinite then none else some product
      else some (x.divMagnitudes power)
    else if x.significand = 0 then some x
    else if 0 ≤ e then none
    else scale fuel (x.divMagnitudes (.ofDecimal false 1 308)) (e + 308)

/-- The magnitude: digits that no longer fit a word only count as places, and the power of ten is
applied with a rounding of its own, so the last digits of a long number may be lost. -/
def magnitude? (n : JsonNumber) : Option Binary64 :=
  let (digits, surplus) := absorb 0 n.whole
  let places := n.places.getD []
  let (digits, dropped) := absorb digits places
  let start : Int := surplus.length - (places.length - dropped.length)
  match n.exponent with
  | none => scale 8 (.ofNat digits) start
  | some (negative, ds) =>
    let e := digitsValue ds
    if exponentLimit ≤ e then
      if digits ≠ 0 ∧ !negative then none else some .zero
    else scale 8 (.ofNat digits) (if negative then start - e else start + e)

def real? (n : JsonNumber) : Option Binary64 :=
  n.magnitude?.map fun x => .ofMagnitude n.negative x.magnitudeBits

/-- The whole number below `limit` that is spelled without sign, point and exponent. -/
def count? (limit : Nat) (n : JsonNumber) : Option Nat :=
  if n.negative || n.places.isSome || n.exponent.isSome then none
  else
    let value := digitsValue n.whole
    if value < limit then some value else none

end JsonNumber

namespace JsonTree

def isSpace (c : Char) : Bool := c == ' ' || c == '\n' || c == '\t' || c == '\r'

def skipSpace (s : List Char) : List Char := s.dropWhile isSpace

def hexValue? (c : Char) : Option Nat :=
  if '0' ≤ c ∧ c ≤ '9' then some (c.toNat - '0'.toNat)
  else if 'a' ≤ c ∧ c ≤ 'f' then some (c.toNat - 'a'.toNat + 10)
  else if 'A' ≤ c ∧ c ≤ 'F' then some (c.toNat - 'A'.toNat + 10)
  else none

def hexUnit? (s : List Char) : Option Nat :=
  s.foldl (fun acc c => acc.bind fun n => (hexValue? c).map (16 * n + ·)) (some 0)

/-- One item of a text: a character, or a unit of sixteen bits that was spelled as an escape. -/
inductive TextItem where
  | char (c : Char)
  | unit (n : Nat)

/-- The characters of the items; two surrogates in the right order make one. -/
def assemble : List TextItem → Option (List Char)
  | [] => some []
  | .char c :: rest => (assemble rest).map (c :: ·)
  | .unit n :: rest =>
    if n < 0xd800 ∨ 0xe000 ≤ n then (assemble rest).map (Char.ofNat n :: ·)
    else if 0xdc00 ≤ n then none
    else
      match rest with
      | .unit m :: rest =>
        if 0xdc00 ≤ m ∧ m < 0xe000 then
          (assemble rest).map (Char.ofNat (0x10000 + (n - 0xd800) * 0x400 + (m - 0xdc00)) :: ·)
        else none
      | _ => none

def readItems : List Char → Option (List TextItem × List Char)
  | [] => none
  | '"' :: s => some ([], s)
  | '\\' :: 'u' :: a :: b :: c :: d :: s =>
    match hexUnit? [a, b, c, d] with
    | some n => (readItems s).map fun (items, rest) => (.unit n :: items, rest)
    | none => none
  | '\\' :: c :: s =>
    let meant : Option Char :=
      match c with
      | '"' => some '"'
      | '\\' => some '\\'
      | '/' => some '/'
      | 'b' => some '\x08'
      | 'f' => some '\x0c'
      | 'n' => some '\n'
      | 'r' => some '\r'
      | 't' => some '\t'
      | _ => none
    match meant with
    | some m => (readItems s).map fun (items, rest) => (.char m :: items, rest)
    | none => none
  | c :: s =>
    if c.toNat < 0x20 ∨ c = '\\' then none
    else (readItems s).map fun (items, rest) => (.char c :: items, rest)

def readText (s : List Char) : Option (Option String × List Char) :=
  (readItems s).map fun (items, rest) => ((assemble items).map String.ofList, rest)

def readExponent (s : List Char) : Option (Option (Bool × List Char) × List Char) :=
  match s with
  | c :: r =>
    if c = 'e' ∨ c = 'E' then
      let (negative, r) := splitSign r
      let ds := r.takeWhile isDigit
      if ds.isEmpty then none else some (some (negative, ds), r.dropWhile isDigit)
    else some (none, s)
  | [] => some (none, [])

def readNumber (negative : Bool) (s : List Char) : Option (JsonNumber × List Char) :=
  let whole := s.takeWhile isDigit
  let rest := s.dropWhile isDigit
  if whole.isEmpty || (whole.head? == some '0' && 1 < whole.length) then none
  else
    match rest with
    | '.' :: r =>
      let places := r.takeWhile isDigit
      if places.isEmpty then none
      else (readExponent (r.dropWhile isDigit)).map fun (e, r) =>
        (⟨negative, whole, some places, e⟩, r)
    | r => (readExponent r).map fun (e, r) => (⟨negative, whole, none, e⟩, r)

mutual

def readValue : Nat → List Char → Option (JsonTree × List Char)
  | 0, _ => none
  | fuel + 1, s =>
    match skipSpace s with
    | 'n' :: 'u' :: 'l' :: 'l' :: r => some (.null, r)
    | 't' :: 'r' :: 'u' :: 'e' :: r => some (.bool true, r)
    | 'f' :: 'a' :: 'l' :: 's' :: 'e' :: r => some (.bool false, r)
    | '"' :: r => (readText r).map fun (t, r) => (.text t, r)
    | '-' :: r => (readNumber true r).map fun (n, r) => (.number n, r)
    | '[' :: r =>
      match skipSpace r with
      | ']' :: r => some (.list [], r)
      | r => (readItemsOfList fuel r).map fun (items, r) => (.list items, r)
    | '{' :: r =>
      match skipSpace r with
      | '}' :: r => some (.record [], r)
      | r => (readFields fuel r).map fun (fields, r) => (.record fields, r)
    | r => (readNumber false r).map fun (n, r) => (.number n, r)

def readItemsOfList : Nat → List Char → Option (List JsonTree × List Char)
  | 0, _ => none
  | fuel + 1, s =>
    match readValue fuel s with
    | none => none
    | some (item, r) =>
      match skipSpace r with
      | ']' :: r => some ([item], r)
      | ',' :: r => (readItemsOfList fuel r).map fun (items, r) => (item :: items, r)
      | _ => none

def readFields : Nat → List Char → Option (List (Option String × JsonTree) × List Char)
  | 0, _ => none
  | fuel + 1, s =>
    match skipSpace s with
    | '"' :: r =>
      match readText r with
      | none => none
      | some (name, r) =>
        match skipSpace r with
        | ':' :: r =>
          match readValue fuel r with
          | none => none
          | some (value, r) =>
            match skipSpace r with
            | '}' :: r => some ([(name, value)], r)
            | ',' :: r => (readFields fuel r).map fun (fields, r) => ((name, value) :: fields, r)
            | _ => none
        | _ => none
    | _ => none

end

def read? (text : String) : Option JsonTree :=
  let s := text.toList
  match readValue (s.length + 1) s with
  | some (tree, rest) => if (skipSpace rest).isEmpty then some tree else none
  | none => none

def count? (limit : Nat) : JsonTree → Option Nat
  | .number n => n.count? limit
  | _ => none

def real? : JsonTree → Option Binary64
  | .number n => n.real?
  | _ => none

def text? : JsonTree → Option String
  | .text s => s
  | _ => none

def bool? : JsonTree → Option Bool
  | .bool b => some b
  | _ => none

/-- One of several names: the name itself, or a record whose only field has that name and null as
its value. -/
def choice? {α : Type} (ofName : String → Option α) : JsonTree → Option α
  | .text s => s.bind ofName
  | .record [(some name, .null)] => ofName name
  | _ => none

end JsonTree

end NoiseTimeline
