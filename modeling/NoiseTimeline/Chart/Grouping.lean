import NoiseTimeline.Config
import NoiseTimeline.Number.Literal
import NoiseTimeline.Text.Search

/-!
Result files by what their names say. A name belongs to every kind of noise that it mentions, in any
case of letters, and carries its threshold as `threshold_<digits>_`.
-/

namespace NoiseTimeline

def thresholdTag : List Char := "threshold_".toList

def thresholdAfterTag? (rest : List Char) : Option Nat :=
  let digits := rest.takeWhile isDigit
  if digits.isEmpty || (rest.dropWhile isDigit).head? != some '_' then none
  else (readCount halfWordLimit digits).toOption

def threshold? (name : String) : Option Nat :=
  (Text.afterEach thresholdTag 0 name.toList).findSome? thresholdAfterTag?

/-- Whether a name mentions a kind of noise. Letters outside ASCII have no lower case that could
complete the token, so it is enough to fold ASCII. -/
def NoiseProperty.isMentionedIn (p : NoiseProperty) (name : String) : Bool :=
  Text.contains p.token.toList (name.toList.map lowerAscii)

/-- The names that mention `p` and have a threshold, by threshold; equal thresholds keep their
order. -/
def namesByThreshold (p : NoiseProperty) (names : List String) : List (Nat × String) :=
  ((names.filter p.isMentionedIn).filterMap fun name => (threshold? name).map (·, name)).mergeSort
    fun a b => a.1 ≤ b.1

def namesWithoutThreshold (p : NoiseProperty) (names : List String) : List String :=
  (names.filter p.isMentionedIn).filter fun name => (threshold? name).isNone

def groupByThreshold (names : List String) : List (NoiseProperty × List (Nat × String)) :=
  NoiseProperty.all.map fun p => (p, namesByThreshold p names)

def groupingRemarks (names : List String) : List String :=
  NoiseProperty.all.flatMap fun p =>
    (namesWithoutThreshold p names).map fun name => s!"No threshold in '{name}', skipping"

example : threshold? "threshold_x_threshold_3_a.csv" = some 3 := by decide +kernel

end NoiseTimeline
