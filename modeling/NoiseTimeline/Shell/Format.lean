import NoiseTimeline.Number.Decimal
import NoiseTimeline.Number.Literal
import NoiseTimeline.Shell.Arithmetic

/-!
Texts with escapes and conversions, as scripts print them. A format is used again as long as
arguments are left.
-/

namespace NoiseTimeline.Shell.Format

def isOctal (c : Char) : Bool := '0' ≤ c && c ≤ '7'

def byteOf (n : Nat) : Char := Char.ofNat (n % 256)

def octal (digits : List Char) : Char :=
  byteOf (digits.foldl (fun n c => 8 * n + (c.toNat - '0'.toNat)) 0)

/-- The character that an escape stands for, given what follows the backslash; other escapes are the
backslash. -/
def escape (s : List Char) : Char × List Char :=
  match s with
  | '\\' :: r => ('\\', r)
  | 'a' :: r => ('\x07', r)
  | 'b' :: r => ('\x08', r)
  | 'f' :: r => ('\x0c', r)
  | 'n' :: r => ('\n', r)
  | 'r' :: r => ('\r', r)
  | 't' :: r => ('\t', r)
  | 'v' :: r => ('\x0b', r)
  | _ =>
    let digits := (s.take 3).takeWhile isOctal
    if digits.isEmpty then ('\\', s) else (octal digits, s.drop digits.length)

/-- An argument with its escapes replaced, and whether the output goes on after it. A number may
have a zero in front, and `\c` ends all output. -/
def unescaped : Nat → List Char → List Char → List Char × Bool
  | 0, acc, _ => (acc.reverse, true)
  | fuel + 1, acc, s =>
    match s with
    | [] => (acc.reverse, true)
    | '\\' :: 'c' :: _ => (acc.reverse, false)
    | '\\' :: r =>
      let r := match r with
        | '0' :: d :: rest => if isOctal d then d :: rest else r
        | _ => r
      let (c, rest) := escape r
      unescaped fuel (c :: acc) rest
    | c :: r => unescaped fuel (c :: acc) r

def unescape (s : List Char) : List Char × Bool := unescaped (s.length + 1) [] s

structure Spread where
  left : Bool := false
  zeros : Bool := false
  plus : Bool := false
  space : Bool := false
  alternative : Bool := false
  width : Nat := 0
  precision : Option Nat := none

/-- Fills a text up to the width; zeros go between the sign and the digits. -/
def Spread.pad (p : Spread) (zeros : Bool) (sign body : List Char) : List Char :=
  let missing := p.width - (sign.length + body.length)
  if p.left then sign ++ body ++ List.replicate missing ' '
  else if zeros then sign ++ List.replicate missing '0' ++ body
  else List.replicate missing ' ' ++ sign ++ body

def Spread.number (p : Spread) (isSigned : Bool) (base : Nat) (capital : Bool)
    (n : Int) : List Char :=
  let size := if isSigned then n.natAbs else (n % 0x10000000000000000).toNat
  let digits := (Nat.toDigits base size).map fun c => if capital then c.toUpper else c
  let digits := if size = 0 ∧ p.precision = some 0 then [] else digits
  let digits := List.replicate (p.precision.getD 1 - digits.length) '0' ++ digits
  let sign :=
    if isSigned then
      if n < 0 then ['-'] else if p.plus then ['+'] else if p.space then [' '] else []
    else if p.alternative ∧ base = 16 ∧ size ≠ 0 then (if capital then ['0', 'X'] else ['0', 'x'])
    else if p.alternative ∧ base = 8 ∧ digits.head? ≠ some '0' then ['0']
    else []
  p.pad (p.zeros && p.precision.isNone) sign digits

def numberOf (argument : List Char) : Int × Option String :=
  match argument with
  | '"' :: r | '\'' :: r => ((r.head?.map fun c => (c.toNat : Int)).getD 0, none)
  | _ =>
    match Arithmetic.signed? argument with
    | some n =>
      if n < -0x8000000000000000 then
        (-0x8000000000000000, some s!"{toText argument}: Numerical result out of range")
      else if 0x7fffffffffffffff < n then
        (0x7fffffffffffffff, some s!"{toText argument}: Numerical result out of range")
      else (n, none)
    | none =>
      let isPart (c : Char) : Bool := c.isDigit || c == '-' || c == '+'
      let start := argument.takeWhile isPart
      match Arithmetic.signed? start with
      | some n => (n, some s!"{toText argument}: not completely converted")
      | none =>
        (0, if argument.isEmpty then none else some s!"{toText argument}: expected numeric value")

def spreadFlags : Nat → Spread → List Char → Spread × List Char
  | 0, p, s => (p, s)
  | fuel + 1, p, s =>
    match s with
    | '-' :: r => spreadFlags fuel { p with left := true } r
    | '0' :: r => spreadFlags fuel { p with zeros := true } r
    | '+' :: r => spreadFlags fuel { p with plus := true } r
    | ' ' :: r => spreadFlags fuel { p with space := true } r
    | '#' :: r => spreadFlags fuel { p with alternative := true } r
    | _ => (p, s)

structure Printing where
  output : List Char := []
  arguments : List (List Char)
  consumed : Bool := false
  complaints : List String := []
  stopped : Bool := false
  isBroken : Bool := false

namespace Printing

def put (p : Printing) (s : List Char) : Printing := { p with output := s.reverseAux p.output }

def take (p : Printing) : List Char × Printing :=
  (p.arguments.headD [], { p with arguments := p.arguments.drop 1, consumed := true })

def takeNumber (p : Printing) : Int × Printing :=
  let (a, p) := p.take
  let (n, fault) := numberOf a
  (n, { p with complaints := p.complaints ++ fault.toList })

def takeCount (p : Printing) (s : List Char) : Int × Printing × List Char :=
  match s with
  | '*' :: r =>
    let (n, p) := p.takeNumber
    (n, p, r)
  | _ => ((digitsValue (s.takeWhile isDigit) : Nat), p, s.dropWhile isDigit)

def convert (p : Printing) (whole : List Char) : Printing × List Char :=
  let (spread, s) := spreadFlags (whole.length + 1) {} whole
  let (width, p, s) := p.takeCount s
  let spread := { spread with left := spread.left || width < 0, width := width.natAbs }
  let (spread, p, s) := match s with
    | '.' :: r =>
      let (n, p, r) := p.takeCount r
      ({ spread with precision := some n.toNat }, p, r)
    | _ => (spread, p, s)
  let cut (t : List Char) : List Char := match spread.precision with
    | some n => t.take n
    | none => t
  let number (isSigned : Bool) (base : Nat) (capital : Bool) (r : List Char) :
      Printing × List Char :=
    let (n, p) := p.takeNumber
    (p.put (spread.number isSigned base capital n), r)
  match s with
  | 's' :: r =>
    let (a, p) := p.take
    (p.put (spread.pad false [] (cut a)), r)
  | 'b' :: r =>
    let (a, p) := p.take
    let (t, goesOn) := unescape a
    ({ p.put (spread.pad false [] (cut t)) with stopped := !goesOn }, r)
  | 'c' :: r =>
    let (a, p) := p.take
    (p.put (spread.pad false [] [a.headD '\x00']), r)
  | 'd' :: r | 'i' :: r => number true 10 false r
  | 'u' :: r => number false 10 false r
  | 'o' :: r => number false 8 false r
  | 'x' :: r => number false 16 false r
  | 'X' :: r => number false 16 true r
  | 'f' :: r =>
    let (a, p) := p.take
    match readReal a with
    | .error _ =>
      let fault := if a.isEmpty then [] else [s!"{toText a}: expected numeric value"]
      ({ p.put (spread.pad spread.zeros [] (Binary64.zero.fixed (spread.precision.getD 6))) with
        complaints := p.complaints ++ fault }, r)
    | .ok x =>
      let sign := if x.isNegative then ['-'] else if spread.plus then ['+'] else []
      let size := x.fixed (spread.precision.getD 6)
      (p.put (spread.pad spread.zeros sign (if x.isNegative then size.drop 1 else size)), r)
  | r =>
    let directive := '%' :: whole.take (whole.length - r.length) ++ r.take 1
    ({ p with complaints := p.complaints ++ [toText directive ++ ": invalid directive"],
              stopped := true, isBroken := true }, [])

def once : Nat → List Char → Printing → Printing
  | 0, _, p => p
  | fuel + 1, s, p =>
    if p.stopped then p
    else
      match s with
      | [] => p
      | '\\' :: r =>
        let (c, rest) := escape r
        once fuel rest (p.put [c])
      | '%' :: '%' :: r => once fuel r (p.put ['%'])
      | '%' :: r =>
        let (p, rest) := p.convert r
        once fuel rest p
      | c :: r => once fuel r (p.put [c])

/-- The format again and again, as long as it takes arguments and some are left. -/
def repeated : Nat → List Char → Printing → Printing
  | 0, _, p => p
  | fuel + 1, format, p =>
    let p := once (format.length + 1) format { p with consumed := false }
    if p.stopped || p.arguments.isEmpty || !p.consumed then p else repeated fuel format p

end Printing

/-- The output of a format with its arguments, what is to be complained about, and the exit
status. -/
def print (format : List Char) (arguments : List (List Char)) : List Char × List String × Nat :=
  let p := Printing.repeated (arguments.length + 1) format { arguments }
  (p.output.reverse, p.complaints, if p.isBroken then 2 else if p.complaints.isEmpty then 0 else 1)

example : (print "%s-%03d|".toList ["a".toList, "7".toList, "b".toList]).1 =
    "a-007|b-000|".toList := by
  decide +kernel

end NoiseTimeline.Shell.Format
