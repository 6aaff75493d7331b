import NoiseTimeline.Number.Literal
import NoiseTimeline.Toml.Tree

/-!
Numbers, moments and truth values of TOML, each spelled by a text without blanks. Underscores stand
between digits only, and no number but zero starts with a zero.
-/

namespace NoiseTimeline.Toml

/-- The digits of a text in which single underscores may stand between digits. -/
def digits? (isDigit : Char → Bool) : List Char → Option (List Char)
  | [] => none
  | [c] => if isDigit c then some [c] else none
  | c :: '_' :: r => if isDigit c then (digits? isDigit r).map (c :: ·) else none
  | c :: r => if isDigit c then (digits? isDigit r).map (c :: ·) else none

def decimal? (s : List Char) : Option (List Char) := do
  let ds ← digits? isDigit s
  if ds.length > 1 ∧ ds.head? = some '0' then none else some ds

def nibble? (c : Char) : Option Nat :=
  if isDigit c then digitValue? c
  else if 'a' ≤ c ∧ c ≤ 'f' then some (c.toNat - 'a'.toNat + 10)
  else if 'A' ≤ c ∧ c ≤ 'F' then some (c.toNat - 'A'.toNat + 10)
  else none

def isDigitOf (base : Nat) (c : Char) : Bool :=
  match nibble? c with
  | some d => d < base
  | none => false

def inBase (base : Nat) (ds : List Char) : Nat :=
  ds.foldl (fun n c => base * n + (nibble? c).getD 0) 0

def signed (s : List Char) : Bool × List Char :=
  match s with
  | '-' :: r => (true, r)
  | '+' :: r => (false, r)
  | r => (false, r)

def integer? (s : List Char) : Option Int :=
  match s with
  | '0' :: 'x' :: r => (digits? (isDigitOf 16) r).map fun ds => inBase 16 ds
  | '0' :: 'o' :: r => (digits? (isDigitOf 8) r).map fun ds => inBase 8 ds
  | '0' :: 'b' :: r => (digits? (isDigitOf 2) r).map fun ds => inBase 2 ds
  | _ =>
    let (negative, r) := signed s
    (decimal? r).map fun ds => if negative then -(digitsValue ds : Int) else digitsValue ds

def splitOn? (c : Char) (s : List Char) : List Char × Option (List Char) :=
  match s.dropWhile (· != c) with
  | [] => (s, none)
  | _ :: r => (s.takeWhile (· != c), some r)

def real? (s : List Char) : Option Binary64 := do
  let (negative, r) := signed s
  if r = "inf".toList then return .infinity negative
  if r = "nan".toList then return .nan
  let (mantissa, exponent) := splitOn? 'e' (r.map fun c => if c = 'E' then 'e' else c)
  let (whole, places) := splitOn? '.' mantissa
  if exponent.isNone ∧ places.isNone then none
  let whole ← decimal? whole
  let places ← match places with
    | some p => digits? isDigit p
    | none => some []
  let power ← match exponent with
    | some e =>
      let (down, e) := signed e
      (digits? isDigit e).map fun ds => if down then -(digitsValue ds : Int) else digitsValue ds
    | none => some 0
  let x := Binary64.ofDecimal negative (digitsValue (whole ++ places)) (power - places.length)
  if x.isInfinite then none else return x

/-- A number of exactly `count` digits between two bounds, and what follows. -/
def field? (count low high : Nat) (s : List Char) : Option (Nat × List Char) :=
  let ds := s.take count
  let n := digitsValue ds
  if ds.length = count ∧ ds.all isDigit ∧ low ≤ n ∧ n ≤ high then some (n, s.drop count) else none

def expect? (c : Char) (s : List Char) : Option (List Char) :=
  match s with
  | d :: r => if d = c then some r else none
  | [] => none

def isLeap (year : Nat) : Bool := year % 4 = 0 ∧ (year % 100 ≠ 0 ∨ year % 400 = 0)

def daysIn (year month : Nat) : Nat :=
  if month = 2 then (if isLeap year then 29 else 28)
  else if [4, 6, 9, 11].contains month then 30 else 31

def afterDate? (s : List Char) : Option (List Char) := do
  let (year, s) ← field? 4 0 9999 s
  let (month, s) ← field? 2 1 12 (← expect? '-' s)
  let (_, s) ← field? 2 1 (daysIn year month) (← expect? '-' s)
  return s

def afterTime? (s : List Char) : Option (List Char) := do
  let (_, s) ← field? 2 0 23 s
  let (_, s) ← field? 2 0 59 (← expect? ':' s)
  match s with
  | ':' :: r =>
    let (_, r) ← field? 2 0 60 r
    match r with
    | '.' :: r => if (r.head?.map isDigit).getD false then return r.dropWhile isDigit else none
    | r => return r
  | _ => return s

def afterOffset? (s : List Char) : Option (List Char) :=
  match s with
  | 'Z' :: r | 'z' :: r => some r
  | '+' :: r | '-' :: r => do
    let (_, r) ← field? 2 0 23 r
    let (_, r) ← field? 2 0 59 (← expect? ':' r)
    return r
  | r => some r

def isMoment (s : List Char) : Bool :=
  let time := afterTime? s = some []
  let dated := match afterDate? s with
    | none => false
    | some [] => true
    | some (c :: r) => (c = 'T' ∨ c = 't' ∨ c = ' ') && ((afterTime? r).bind afterOffset?) = some []
  time || dated

/-- The value that a text spells; an integer must lie in the range from `low` to `high`. -/
def scalar? (low high : Int) (s : List Char) : Option Tree :=
  if s = "true".toList then some (.bool true)
  else if s = "false".toList then some (.bool false)
  else
    match integer? s with
    | some n => if low ≤ n ∧ n ≤ high then some (.integer n) else none
    | none =>
      match real? s with
      | some x => some (.real x)
      | none => if isMoment s then some (.moment (String.ofList s)) else none

example : integer? "1_000".toList = some 1000 ∧ integer? "0x1F".toList = some 31 ∧
    integer? "01".toList = none := by
  decide +kernel

example : isMoment "1979-05-27T07:32:00Z".toList ∧ !isMoment "1979-02-29".toList ∧
    isMoment "07:32".toList := by
  decide +kernel

end NoiseTimeline.Toml
