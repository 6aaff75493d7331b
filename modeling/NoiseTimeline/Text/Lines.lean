/-!
The lines of a text. A line ends with a line feed, which is not part of it, and neither is one
carriage return right before that line feed. The last line may lack its line feed; it then keeps
what it has.
-/

namespace NoiseTimeline.Text

/-- A finished line, given in reverse: one carriage return at its end is dropped. -/
def closeLine : List Char → List Char
  | '\r' :: r => r.reverse
  | r => r.reverse

/-- The lines of `acc.reverse ++ s`, where `acc` holds the unfinished line read so far. -/
def linesFrom (acc : List Char) : List Char → List (List Char)
  | [] => if acc.isEmpty then [] else [acc.reverse]
  | c :: s => if c = '\n' then closeLine acc :: linesFrom [] s else linesFrom (c :: acc) s

def lines (s : List Char) : List (List Char) := linesFrom [] s

def linesOf (s : String) : List String := (lines s.toList).map String.ofList

def joined (sep : String) (items : List String) : String := String.intercalate sep items

example : linesOf "a\r\n\nb\r" = ["a", "", "b\r"] := by decide +kernel

end NoiseTimeline.Text
