import NoiseTimeline.Number.Binary64

/-!
Numbers read from text. A count is decimal digits after at most one plus sign; a real number has a
sign, digits with at most one point, and an exponent, or it is one of the words for infinity and
NaN.
-/

namespace NoiseTimeline

inductive CountError where
  | empty
  | invalidDigit
  | tooLarge
  deriving DecidableEq

def CountError.message : CountError → String
  | .empty => "cannot parse integer from empty string"
  | .invalidDigit => "invalid digit found in string"
  | .tooLarge => "number too large to fit in target type"

inductive RealError where
  | empty
  | invalid
  deriving DecidableEq

def RealError.message : RealError → String
  | .empty => "cannot parse float from empty string"
  | .invalid => "invalid float literal"

def digitValue? (c : Char) : Option Nat :=
  if '0' ≤ c ∧ c ≤ '9' then some (c.toNat - '0'.toNat) else none

def isDigit (c : Char) : Bool := (digitValue? c).isSome

def digitsFrom (acc : Nat) (ds : List Char) : Nat :=
  ds.foldl (fun n c => 10 * n + ((digitValue? c).getD 0)) acc

def digitsValue (ds : List Char) : Nat := digitsFrom 0 ds

def countFrom (limit acc : Nat) : List Char → Except CountError Nat
  | [] => .ok acc
  | c :: s =>
    match digitValue? c with
    | none => .error .invalidDigit
    | some d => if limit ≤ 10 * acc + d then .error .tooLarge else countFrom limit (10 * acc + d) s

def readCount (limit : Nat) : List Char → Except CountError Nat
  | [] => .error .empty
  | ['+'] => .error .invalidDigit
  | '+' :: s => countFrom limit 0 s
  | s => countFrom limit 0 s

def wordLimit : Nat := 0x10000000000000000

def halfWordLimit : Nat := 0x100000000

/-- The number `digits * 10 ^ exponent`, rounded to nearest. Far outside the range of finite numbers
the answer is known without the power. -/
def Binary64.ofDecimal (negative : Bool) (digits : Nat) (exponent : Int) : Binary64 :=
  if digits = 0 then ofMagnitude negative 0
  else if 400 < exponent then infinity negative
  else if exponent + (digits.log2 / 3 : Nat) < -400 then ofMagnitude negative 0
  else ofRatio negative (digits * Nat.pow 10 exponent.toNat) (Nat.pow 10 (-exponent).toNat)

def splitSign : List Char → Bool × List Char
  | '-' :: s => (true, s)
  | '+' :: s => (false, s)
  | s => (false, s)

/-- The exponent after a mark `e`; the whole rest must be digits, one at least. -/
def readExponent? : List Char → Option Int
  | [] => some 0
  | c :: s =>
    if c = 'e' ∨ c = 'E' then
      let (negative, ds) := splitSign s
      if ds.isEmpty || !ds.all isDigit then none
      else some (if negative then -(digitsValue ds : Int) else digitsValue ds)
    else none

def readUnsigned? (negative : Bool) (s : List Char) : Option Binary64 :=
  let whole := s.takeWhile isDigit
  let rest := s.dropWhile isDigit
  let (places, rest) :=
    match rest with
    | '.' :: r => (r.takeWhile isDigit, r.dropWhile isDigit)
    | r => ([], r)
  if whole.isEmpty && places.isEmpty then none
  else
    (readExponent? rest).map fun e =>
      .ofDecimal negative (digitsValue (whole ++ places)) (e - places.length)

def lowerAscii (c : Char) : Char :=
  if 'A' ≤ c ∧ c ≤ 'Z' then Char.ofNat (c.toNat + 32) else c

def readReal (s : List Char) : Except RealError Binary64 :=
  if s.isEmpty then .error .empty
  else
    let (negative, r) := splitSign s
    match readUnsigned? negative r with
    | some x => .ok x
    | none =>
      let word := String.ofList (r.map lowerAscii)
      if word == "inf" || word == "infinity" then .ok (.infinity negative)
      else if word == "nan" then .ok .nan
      else .error .invalid

example : (readReal "1e-400".toList).toOption = some .zero := by decide +kernel

example : (readReal ".5".toList).toOption = some (.ofRatio false 1 2) := by decide +kernel

example : (readCount wordLimit "18446744073709551616".toList).isOk = false := by decide +kernel

end NoiseTimeline
