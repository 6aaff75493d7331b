import NoiseTimeline.Shell.Word

/-!
Fields: what a word becomes once its values are in place. Separators that come from values split it,
and patterns among the fields stand for the texts that they match.
-/

namespace NoiseTimeline.Shell

inductive Glyph where
  /-- A character; `guarded` if it is no pattern sign, `splits` if it may separate fields. -/
  | char (c : Char) (guarded splits : Bool)
  /-- A place in quotes, where there is a field even without a character. -/
  | present
  /-- The end of one argument and the start of another. -/
  | boundary
  deriving DecidableEq

namespace Glyph

def ofScript (guarded : Bool) (s : List Char) : List Glyph := s.map fun c => .char c guarded false

def ofValue (guarded : Bool) (s : List Char) : List Glyph :=
  s.map fun c => .char c guarded (!guarded)

def text (g : List Glyph) : List Char :=
  g.filterMap fun
    | .char c _ _ => some c
    | _ => none

def separates (separators : List Char) : Glyph → Bool
  | .char c _ true => separators.contains c
  | _ => false

def isBlank : Glyph → Bool
  | .char c _ _ => c == ' ' || c == '\t' || c == '\n'
  | _ => false

/-- The fields of glyphs; those of the unfinished field are given in reverse. A run of blanks
separates, and a sign among them belongs to it: `closed` says that blanks have ended a field and no
sign has followed yet. -/
def fieldsFrom (separators : List Char) (closed : Bool) (acc : List Glyph) :
    List Glyph → List (List Glyph)
  | [] => if acc.isEmpty then [] else [acc.reverse]
  | g :: r =>
    if g = .boundary then
      if acc.isEmpty then fieldsFrom separators false [] r
      else acc.reverse :: fieldsFrom separators false [] r
    else if separates separators g then
      if isBlank g then
        if acc.isEmpty then fieldsFrom separators closed [] r
        else acc.reverse :: fieldsFrom separators true [] r
      else if acc.isEmpty && closed then fieldsFrom separators false [] r
      else acc.reverse :: fieldsFrom separators false [] r
    else fieldsFrom separators false (g :: acc) r

def fields (separators : List Char) (g : List Glyph) : List (List Glyph) :=
  fieldsFrom separators false [] g

end Glyph

inductive Atom where
  | exactly (c : Char)
  | one
  | many
  | oneOf (negated : Bool) (ranges : List (Char × Char))
  deriving DecidableEq

namespace Atom

def admits : Atom → Char → Bool
  | .exactly d, c => c == d
  | .one, _ => true
  | .many, _ => true
  | .oneOf negated ranges, c => (ranges.any fun r => decide (r.1 ≤ c ∧ c ≤ r.2)) != negated

def ranges : List Char → List (Char × Char)
  | a :: '-' :: b :: r => (a, b) :: ranges r
  | a :: r => (a, a) :: ranges r
  | [] => []

/-- The inside of a bracket and what follows it. A bracket that closes at once stands for itself. -/
def bracket? (g : List Glyph) : Option (Atom × List Glyph) :=
  let opens (g : List Glyph) : Bool × List Glyph := match g with
    | .char '!' false _ :: r => (true, r)
    | .char '^' false _ :: r => (true, r)
    | _ => (false, g)
  let (negated, g) := opens g
  let (head, tail) := (g.take 1, g.drop 1)
  let closes (x : Glyph) : Bool := match x with
    | .char ']' false _ => true
    | _ => false
  let inside := head ++ tail.takeWhile fun x => !closes x
  match tail.dropWhile fun x => !closes x with
  | [] => none
  | _ :: rest => some (.oneOf negated (ranges (Glyph.text inside)), rest)

def ofGlyphs : Nat → List Glyph → List Atom
  | 0, _ => []
  | fuel + 1, g =>
    match g with
    | [] => []
    | .char '*' false _ :: r => .many :: ofGlyphs fuel r
    | .char '?' false _ :: r => .one :: ofGlyphs fuel r
    | .char '[' false _ :: r =>
      match bracket? r with
      | some (a, rest) => a :: ofGlyphs fuel rest
      | none => .exactly '[' :: ofGlyphs fuel r
    | .char c _ _ :: r => .exactly c :: ofGlyphs fuel r
    | _ :: r => ofGlyphs fuel r

def pattern (g : List Glyph) : List Atom := ofGlyphs (g.length + 1) g

def fits : List Atom → List Char → Bool
  | [], s => s.isEmpty
  | .many :: ps, [] => fits ps []
  | .many :: ps, c :: s => fits ps (c :: s) || fits (.many :: ps) s
  | _ :: _, [] => false
  | a :: ps, c :: s => a.admits c && fits ps s
termination_by ps s => ps.length + s.length

def isExact (ps : List Atom) : Bool :=
  ps.all fun
    | .exactly _ => true
    | _ => false

/-- A text without the shortest or longest start that the pattern matches. -/
def withoutStart (longest : Bool) (ps : List Atom) (s : List Char) : List Char :=
  let lengths := List.range (s.length + 1)
  match (if longest then lengths.reverse else lengths).find? fun n => fits ps (s.take n) with
  | some n => s.drop n
  | none => s

def withoutEnd (longest : Bool) (ps : List Atom) (s : List Char) : List Char :=
  let lengths := List.range (s.length + 1)
  match (if longest then lengths else lengths.reverse).find? fun n => fits ps (s.drop n) with
  | some n => s.take n
  | none => s

end Atom

end NoiseTimeline.Shell
