/-!
Bytes read as UTF-8. `decode?` refuses ill-formed bytes; `decodeLossy` puts U+FFFD in the place of
each maximal ill-formed part, that is, of the longest start of a character that the bytes break off.
-/

namespace NoiseTimeline.Text

def decode? (bytes : ByteArray) : Option String := String.fromUTF8? bytes

/-- How many bytes follow a first byte, the bounds on the first of them, and the bits that the first
byte contributes. -/
def leadOf? (b : Nat) : Option (Nat × Nat × Nat × Nat) :=
  if b < 0x80 then some (0, 0x80, 0xbf, b)
  else if b < 0xc2 then none
  else if b < 0xe0 then some (1, 0x80, 0xbf, b - 0xc0)
  else if b = 0xe0 then some (2, 0xa0, 0xbf, 0)
  else if b = 0xed then some (2, 0x80, 0x9f, 0xd)
  else if b < 0xf0 then some (2, 0x80, 0xbf, b - 0xe0)
  else if b = 0xf0 then some (3, 0x90, 0xbf, 0)
  else if b < 0xf4 then some (3, 0x80, 0xbf, b - 0xf0)
  else if b = 0xf4 then some (3, 0x80, 0x8f, 4)
  else none

def replacementChar : Char := '\ufffd'

/-- A character under construction: bytes still missing, bounds on the next one, bits so far. -/
structure Pending where
  missing : Nat
  low : Nat
  high : Nat
  bits : Nat

/-- The state and the characters finished when a byte arrives that starts afresh. -/
def startByte (b : Nat) : Option Pending × List Char :=
  match leadOf? b with
  | none => (none, [replacementChar])
  | some (0, _, _, bits) => (none, [Char.ofNat bits])
  | some (n + 1, low, high, bits) => (some ⟨n + 1, low, high, bits⟩, [])

/-- One byte: it continues the pending character, or breaks it off and starts afresh. -/
def stepByte (pending : Option Pending) (b : Nat) : Option Pending × List Char :=
  match pending with
  | none => startByte b
  | some p =>
    if p.low ≤ b ∧ b ≤ p.high then
      let bits := p.bits * 64 + (b - 0x80)
      if p.missing ≤ 1 then (none, [Char.ofNat bits])
      else (some ⟨p.missing - 1, 0x80, 0xbf, bits⟩, [])
    else
      let (next, out) := startByte b
      (next, replacementChar :: out)

def decodeFrom (pending : Option Pending) : List UInt8 → List Char
  | [] => if pending.isSome then [replacementChar] else []
  | b :: r =>
    let (next, out) := stepByte pending b.toNat
    out ++ decodeFrom next r

def decodeLossy (bytes : ByteArray) : String :=
  match decode? bytes with
  | some s => s
  | none => String.ofList (decodeFrom none bytes.toList)

example : String.ofList (decodeFrom none [0x61, 0xff, 0xe2, 0x82, 0x41]) = "a\ufffd\ufffdA" := by
  decide +kernel

end NoiseTimeline.Text
