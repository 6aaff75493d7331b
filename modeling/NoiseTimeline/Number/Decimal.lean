import NoiseTimeline.Number.Binary64

/-!
Decimal texts of floating-point numbers: the fewest digits that read back, and a fixed number of
places.

The digits come from exact arithmetic on integers. The numbers that round to `x` fill an interval
around it; for one digit, two digits and so on the two neighbours of `x` on that decimal grid are
tried, and the first grid with a neighbour in the interval wins.
-/

namespace NoiseTimeline

structure Decimal where
  digits : Nat
  exponent : Int
  deriving DecidableEq

inductive Tie where
  | up
  | toEven

namespace Decimal

def digitTexts (n : Nat) : List Char := Nat.toDigits 10 n

/-- The same number with no zero at the end of its digits; `fuel` bounds the zeros looked for. -/
def dropZeros : Nat → Decimal → Decimal
  | 0, d => d
  | fuel + 1, d =>
    if d.digits % 10 = 0 ∧ d.digits ≠ 0 then dropZeros fuel ⟨d.digits / 10, d.exponent + 1⟩ else d

def positional (d : Decimal) : List Char :=
  let ds := digitTexts d.digits
  if 0 ≤ d.exponent then ds ++ List.replicate d.exponent.toNat '0'
  else
    let places := (-d.exponent).toNat
    if places < ds.length then
      ds.take (ds.length - places) ++ '.' :: ds.drop (ds.length - places)
    else '0' :: '.' :: (List.replicate (places - ds.length) '0' ++ ds)

def withPlaces (places count : Nat) : List Char :=
  let ds := digitTexts count
  let padded := List.replicate (places + 1 - ds.length) '0' ++ ds
  if places = 0 then padded
  else padded.take (padded.length - places) ++ '.' :: padded.drop (padded.length - places)

end Decimal

namespace Binary64

/-- Quarters of a unit in the last place: the value and the ends of the interval that rounds to it.
Below a power of two the numbers lie closer together. -/
def quarters (x : Binary64) : Nat × Nat × Nat :=
  let m := x.significand
  let below := if m = 0x10000000000000 ∧ 1 < x.field then 1 else 2
  (4 * m - below, 4 * m, 4 * m + 2)

/-- The greatest `k` with `10 ^ k ≤ num / den`, found from the power of two below it. -/
def decade (num den : Nat) : Int :=
  let guess := (Binary64.ratioLog num den * 30103).fdiv 100000
  let reaches (k : Int) : Bool := den * Nat.pow 10 k.toNat ≤ num * Nat.pow 10 (-k).toNat
  if reaches (guess + 1) then guess + 1 else if reaches guess then guess else guess - 1

/-- The neighbour of `x` on the grid of `10 ^ g` that rounds to `x`, the nearer one if both do. -/
def onGrid? (tie : Tie) (x : Binary64) (g : Int) : Option Nat :=
  let (low, value, high) := x.quarters
  let e := x.exponent - 2
  let scale (n : Nat) : Nat := n * Nat.pow 2 e.toNat * Nat.pow 10 (-g).toNat
  let unit := Nat.pow 2 (-e).toNat * Nat.pow 10 g.toNat
  let closed := x.significand % 2 = 0
  let inside (d : Nat) : Bool :=
    let p := d * unit
    if closed then scale low ≤ p && p ≤ scale high else scale low < p && p < scale high
  let d := scale value / unit
  let twice := 2 * scale value
  let middle := (2 * d + 1) * unit
  match inside d, inside (d + 1) with
  | false, false => none
  | true, false => some d
  | false, true => some (d + 1)
  | true, true =>
    if twice < middle then some d
    else if middle < twice then some (d + 1)
    else match tie with
      | .up => some (d + 1)
      | .toEven => some (d + d % 2)

/-- Tries the grids of `n` digits, `n + 1` digits and so on, `fuel` of them. -/
def firstGrid (tie : Tie) (x : Binary64) (top : Int) : Nat → Nat → Decimal
  | 0, n => ⟨0, top - n⟩
  | fuel + 1, n =>
    match onGrid? tie x (top - n) with
    | some d => ⟨d, top - n⟩
    | none => firstGrid tie x top fuel (n + 1)

/-- The fewest digits that read back as `x`, for finite `x` other than zero; 17 always suffice. -/
def shortest (tie : Tie) (x : Binary64) : Decimal :=
  let (num, den) := x.toRatio
  (firstGrid tie x (decade num den + 1) 17 1).dropZeros 20

def signText (x : Binary64) : List Char := if x.isNegative then ['-'] else []

/-- The fewest digits that read back, without an exponent; a half between two candidates goes up. -/
def text (x : Binary64) : List Char :=
  if x.isNaN then ['N', 'a', 'N']
  else x.signText ++
    if x.isInfinite then ['i', 'n', 'f']
    else if x.significand = 0 then ['0']
    else (x.shortest .up).positional

def toText (x : Binary64) : String := String.ofList x.text

/-- The exact value rounded to `places` places, a half to the even neighbour. -/
def fixed (places : Nat) (x : Binary64) : List Char :=
  if x.isNaN then ['N', 'a', 'N']
  else x.signText ++
    if x.isInfinite then ['i', 'n', 'f']
    else
      let (num, den) := x.toRatio
      Decimal.withPlaces places (roundDiv (num * Nat.pow 10 places) den)

def toFixed (places : Nat) (x : Binary64) : String := String.ofList (x.fixed places)

/-- The fewest digits that read back, always with a point or an exponent: positional for magnitudes
from `1e-5` to below `1e16`, otherwise one digit before the point. A half between two candidates
goes to even. -/
def scientific (x : Binary64) : List Char :=
  x.signText ++
    if x.significand = 0 then ['0', '.', '0']
    else
      let d := x.shortest .toEven
      let ds := Decimal.digitTexts d.digits
      let top : Int := ds.length + d.exponent
      if 0 ≤ d.exponent ∧ top ≤ 16 then d.positional ++ ['.', '0']
      else if -5 < top ∧ top ≤ 16 then d.positional
      else
        let rest := ds.drop 1
        ds.take 1 ++ (if rest.isEmpty then [] else '.' :: rest) ++
          'e' :: (if 0 < top then '+' else '-') :: Decimal.digitTexts (top - 1).natAbs

example : (ofRatio false 3 10).toText = "0.3" := by decide +kernel

example : toText ⟨0x44b52d02c7e14af6⟩ = "100000000000000000000000" := by decide +kernel

example : (ofRatio false 1 8).toFixed 2 = "0.12" := by decide +kernel

example : String.ofList (ofRatio true 1 10000000).scientific = "-1e-7" := by decide +kernel

end Binary64

end NoiseTimeline
