/-!
Floating-point numbers of 64 bits, as their bits. A finite number is its sign, `significand` and
`exponent`; the order compares integer keys, so that it is decided without arithmetic on floats.
`ofRatio` rounds a quotient to the nearest number, a half to the even significand.
-/

namespace NoiseTimeline

structure Binary64 where
  bits : UInt64
  deriving DecidableEq

namespace Binary64

def infinityBits : Nat := 0x7ff0000000000000

def magnitudeBits (x : Binary64) : Nat := x.bits.toNat % 0x8000000000000000

def isNegative (x : Binary64) : Bool := 0x8000000000000000 ≤ x.bits.toNat

def isNaN (x : Binary64) : Bool := infinityBits < x.magnitudeBits

def isInfinite (x : Binary64) : Bool := x.magnitudeBits == infinityBits

def isFinite (x : Binary64) : Bool := x.magnitudeBits < infinityBits

/-- The exponent field; zero marks the numbers below the least normal one. -/
def field (x : Binary64) : Nat := x.magnitudeBits / 0x10000000000000

def significand (x : Binary64) : Nat :=
  let fraction := x.magnitudeBits % 0x10000000000000
  if x.field = 0 then fraction else fraction + 0x10000000000000

def exponent (x : Binary64) : Int := (max x.field 1 : Nat) - 1075

/-- The order of the numbers other than NaN is the order of their keys; both zeros have key 0. -/
def key (x : Binary64) : Int :=
  if x.isNegative then -(x.magnitudeBits : Int) else x.magnitudeBits

/-- A comparison with NaN fails. -/
def le (x y : Binary64) : Bool := !x.isNaN && !y.isNaN && x.key ≤ y.key

def lt (x y : Binary64) : Bool := !x.isNaN && !y.isNaN && x.key < y.key

def ofMagnitude (negative : Bool) (magnitude : Nat) : Binary64 :=
  ⟨UInt64.ofNat (if negative then magnitude + 0x8000000000000000 else magnitude)⟩

def zero : Binary64 := ofMagnitude false 0

def one : Binary64 := ⟨0x3ff0000000000000⟩

def nan : Binary64 := ⟨0x7ff8000000000000⟩

def infinity (negative : Bool) : Binary64 := ofMagnitude negative infinityBits

def roundDiv (num den : Nat) : Nat :=
  let q := num / den
  let r := num % den
  if den < 2 * r then q + 1
  else if 2 * r = den then q + q % 2
  else q

/-- The quotient `num / (den * 2 ^ e)` with the power on whichever side keeps it whole. -/
def scaled (num den : Nat) (e : Int) : Nat × Nat :=
  (num * Nat.pow 2 (-e).toNat, den * Nat.pow 2 e.toNat)

/-- The greatest `e` with `2 ^ e ≤ num / den`, for positive `num` and `den`. -/
def ratioLog (num den : Nat) : Int :=
  let e : Int := num.log2 - den.log2
  let (n, d) := scaled num den e
  if d ≤ n then e else e - 1

/-- The number nearest to `num / den`; beyond the greatest finite one, infinity. The bits of
successive magnitudes are successive integers, so a significand rounded up to `2 ^ 53` carries into
the exponent. -/
def ofRatio (negative : Bool) (num den : Nat) : Binary64 :=
  if num = 0 then ofMagnitude negative 0
  else
    let e := max (ratioLog num den - 52) (-1074)
    let (n, d) := scaled num den e
    ofMagnitude negative (min ((e + 1074).toNat * 0x10000000000000 + roundDiv n d) infinityBits)

def ofNat (n : Nat) : Binary64 := ofRatio false n 1

def toRatio (x : Binary64) : Nat × Nat :=
  (x.significand * Nat.pow 2 x.exponent.toNat, Nat.pow 2 (-x.exponent).toNat)

def addMagnitudes (x y : Binary64) : Binary64 :=
  let (a, b) := x.toRatio
  let (c, d) := y.toRatio
  ofRatio false (a * d + c * b) (b * d)

def mulMagnitudes (x y : Binary64) : Binary64 :=
  let (a, b) := x.toRatio
  let (c, d) := y.toRatio
  ofRatio false (a * c) (b * d)

/-- The rounded quotient of the magnitudes of two finite numbers, the second of them not zero. -/
def divMagnitudes (x y : Binary64) : Binary64 :=
  let (a, b) := x.toRatio
  let (c, d) := y.toRatio
  ofRatio false (a * d) (b * c)

example : ofRatio false 1 10 = ⟨0x3fb999999999999a⟩ := by decide +kernel

example : ofNat (2 ^ 64 - 1) = ⟨0x43f0000000000000⟩ := by decide +kernel

end Binary64

end NoiseTimeline
