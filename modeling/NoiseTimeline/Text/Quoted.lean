/-!
Texts in double quotes, as shown to a reader: quotes, backslashes and control characters are
escaped. Some characters that print but would be taken for others are escaped too.
-/

namespace NoiseTimeline.Text

def hexDigit (n : Nat) : Char :=
  if n < 10 then Char.ofNat (n + '0'.toNat) else Char.ofNat (n - 10 + 'a'.toNat)

def hexText (n : Nat) : List Char := Nat.toDigits 16 n

/-- Characters without a visible form of their own: controls, blanks other than the space, and
marks. -/
def isHidden (n : Nat) : Bool :=
  n < 0x20 || (0x7f ≤ n && n < 0xa1) || n == 0xad || (0x300 ≤ n && n < 0x370) ||
    (0x200b ≤ n && n < 0x2010) || (0x2028 ≤ n && n < 0x2030) || n == 0x1680 ||
    (0x2000 ≤ n && n < 0x200b) || (0x205f ≤ n && n < 0x2070) || n == 0x3000 ||
    (0xe000 ≤ n && n < 0xf900) || (0xfe00 ≤ n && n < 0xfe10) || n == 0xfeff ||
    (0xfff0 ≤ n && n < 0xfffc) || 0xe0000 ≤ n

def escaped (c : Char) : List Char :=
  match c with
  | '\x00' => ['\\', '0']
  | '\t' => ['\\', 't']
  | '\n' => ['\\', 'n']
  | '\r' => ['\\', 'r']
  | '"' => ['\\', '"']
  | '\\' => ['\\', '\\']
  | c => if isHidden c.toNat then "\\u\x7b".toList ++ hexText c.toNat ++ ['}'] else [c]

def quoted (s : String) : String := String.ofList ('"' :: s.toList.flatMap escaped ++ ['"'])

end NoiseTimeline.Text
