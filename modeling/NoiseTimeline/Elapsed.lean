import NoiseTimeline.Number.Decimal

/-!
Elapsed times, written as a clock reading `HH:MM:SS.ff`. Hours are not wrapped; the seconds are
rounded to two places after minutes and hours have been split off.
-/

namespace NoiseTimeline

structure Elapsed where
  seconds : Nat
  nanoseconds : Nat
  deriving DecidableEq

def padZeros (width : Nat) (s : List Char) : List Char :=
  List.replicate (width - s.length) '0' ++ s

namespace Elapsed

/-- The seconds of the last minute, as the rounded sum of the whole and the rounded fractional
part. -/
def secondsOfMinute (e : Elapsed) : Binary64 :=
  .addMagnitudes (.ofNat (e.seconds % 60)) (.ofRatio false e.nanoseconds 1000000000)

def reading (e : Elapsed) : List Char :=
  padZeros 2 (Decimal.digitTexts (e.seconds / 3600)) ++
    ':' :: padZeros 2 (Decimal.digitTexts (e.seconds % 3600 / 60)) ++
    ':' :: padZeros 5 (e.secondsOfMinute.fixed 2)

def text (e : Elapsed) : String := String.ofList e.reading

example : text ⟨3723, 450000000⟩ = "01:02:03.45" := by decide +kernel

example : text ⟨59, 999999999⟩ = "00:00:60.00" := by decide +kernel

end Elapsed

end NoiseTimeline
