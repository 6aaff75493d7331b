import NoiseTimeline.Number.Binary64

/-!
Samples and the timeline they form. A run is saturated once the running maximum of the probabilities
has come within a hundred-thousandth of one.
-/

namespace NoiseTimeline

structure Sample where
  clockCycle : Nat
  probability : Binary64
  deriving DecidableEq

abbrev Timeline := List Sample

/-- The greater of the maximum so far and one more value; a value that does not compare takes its
place. -/
def runningMax (acc : Option Binary64) (p : Binary64) : Option Binary64 :=
  match acc with
  | some m => if p.le m then some m else some p
  | none => some p

namespace Timeline

def maxProbability (t : Timeline) : Option Binary64 :=
  (t.map Sample.probability).foldl runningMax none

end Timeline

/-- One less a hundred-thousandth. -/
def saturation : Binary64 := ⟨0x3fefffeb074a771d⟩

inductive Convergence where
  | continuing
  | saturated (pMax : Binary64) (clockCycle : Nat)
  deriving DecidableEq

namespace Convergence

/-- The cycle reported is that of the first sample to reach the maximum. -/
def ofTimeline (t : Timeline) : Convergence :=
  match t.maxProbability with
  | none => .continuing
  | some pMax =>
    if pMax.lt saturation then .continuing
    else .saturated pMax (((t.find? fun s => pMax.le s.probability).map Sample.clockCycle).getD 0)

example : ofTimeline [⟨0, .zero⟩, ⟨1, .one⟩, ⟨2, .one⟩] = .saturated .one 1 := by decide +kernel

end Convergence

end NoiseTimeline
