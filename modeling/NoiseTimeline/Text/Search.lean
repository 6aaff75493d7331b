/-!
Occurrences of one text in another. `splitAt?` finds the leftmost occurrence, `replaceAll` replaces
the occurrences met by one pass from left to right that never looks at replaced text again.
-/

namespace NoiseTimeline.Text

/-- What stands before and what follows the leftmost occurrence of `pat`. -/
def splitAt? (pat : List Char) : List Char → Option (List Char × List Char)
  | [] => if pat.isEmpty then some ([], []) else none
  | c :: s =>
    if pat.isPrefixOf (c :: s) then some ([], (c :: s).drop pat.length)
    else (splitAt? pat s).map fun (before, after) => (c :: before, after)

def contains (pat s : List Char) : Bool := (splitAt? pat s).isSome

/-- The pass of `replaceAll`; the next `skip` characters belong to an occurrence already
replaced. -/
def replaceFrom (pat value : List Char) : Nat → List Char → List Char
  | _, [] => []
  | skip + 1, _ :: s => replaceFrom pat value skip s
  | 0, c :: s =>
    if pat.isPrefixOf (c :: s) then value ++ replaceFrom pat value (pat.length - 1) s
    else c :: replaceFrom pat value 0 s

/-- Each occurrence of the non-empty text `pat`, taken from left to right, becomes `value`. -/
def replaceAll (pat value s : List Char) : List Char := replaceFrom pat value 0 s

def dropPrefix? (pat s : List Char) : Option (List Char) :=
  if pat.isPrefixOf s then some (s.drop pat.length) else none

/-- What follows each occurrence of `pat` among non-overlapping ones, leftmost first. -/
def afterEach (pat : List Char) : Nat → List Char → List (List Char)
  | _, [] => []
  | skip + 1, _ :: s => afterEach pat skip s
  | 0, c :: s =>
    if pat.isPrefixOf (c :: s) then
      (c :: s).drop pat.length :: afterEach pat (pat.length - 1) s
    else afterEach pat 0 s

example : replaceAll "aa".toList "b".toList "aaaca".toList = "baca".toList := by decide +kernel

end NoiseTimeline.Text
