/-!
Blank characters and what is left of a text when they are taken from its ends. Text is worked on as
a list of characters; `trim` leaves a text that neither starts nor ends with a blank.
-/

namespace NoiseTimeline.Text

def isBlank (c : Char) : Bool :=
  let n := c.toNat
  (0x9 ≤ n && n ≤ 0xd) || n == 0x20 || n == 0x85 || n == 0xa0 || n == 0x1680 ||
    (0x2000 ≤ n && n ≤ 0x200a) || n == 0x2028 || n == 0x2029 || n == 0x202f || n == 0x205f ||
    n == 0x3000

def trimLeft (s : List Char) : List Char := s.dropWhile isBlank

def trimRight (s : List Char) : List Char := (s.reverse.dropWhile isBlank).reverse

def trim (s : List Char) : List Char := trimRight (trimLeft s)

def trimmed (s : String) : String := String.ofList (trim s.toList)

/-- The first maximal run of characters that are not blank, if there is one. -/
def firstWord? (s : List Char) : Option (List Char) :=
  match trimLeft s with
  | [] => none
  | c :: r => some ((c :: r).takeWhile (fun d => !isBlank d))

example : trimmed "\u2003 a b\t\r\n" = "a b" := by decide +kernel

example : firstWord? " 0.5 (exact)".toList = some "0.5".toList := by decide +kernel

end NoiseTimeline.Text
