import NoiseTimeline.Number.Literal

/-!
Windows: inclusive ranges of clock cycles. A planner cuts the cycles from zero up to the horizon, or
up to the last cycle that the counter can hold, into windows of one width; only the last of them may
be narrower.
-/

namespace NoiseTimeline

def lastCycle : Nat := wordLimit - 1

structure Window where
  lower : Nat
  upper : Nat
  deriving DecidableEq

namespace Window

def new? (lower upper : Nat) : Option Window :=
  if lower ≤ upper then some ⟨lower, upper⟩ else none

/-- The number of cycles, when the bounds are in order and the counter can hold it. -/
def width? (w : Window) : Option Nat :=
  if w.lower ≤ w.upper ∧ w.upper - w.lower < lastCycle then some (w.upper - w.lower + 1) else none

def contains (w : Window) (cycle : Nat) : Bool := w.lower ≤ cycle && cycle ≤ w.upper

def text (w : Window) : String := s!"({w.lower},{w.upper})"

end Window

/-- Where the cutting stands: the lower bound of the next window, or nothing when all are out. -/
structure Planner where
  width : Nat
  horizon : Option Nat
  cursor : Option Nat
  deriving DecidableEq

namespace Planner

/-- A width of zero counts as one. -/
def new (width : Nat) (horizon : Option Nat) : Planner := ⟨max width 1, horizon, some 0⟩

def last (p : Planner) : Nat := p.horizon.getD lastCycle

def next (p : Planner) : Option Window × Planner :=
  match p.cursor with
  | none => (none, p)
  | some lower =>
    if p.last < lower then (none, { p with cursor := none })
    else
      let upper := min (min (lower + (p.width - 1)) lastCycle) p.last
      (some ⟨lower, upper⟩,
        { p with cursor := if upper < lastCycle then some (upper + 1) else none })

def remaining (p : Planner) : Nat :=
  match p.cursor with
  | none => 0
  | some lower => if p.last < lower then 0 else (p.last - lower) / p.width + 1

def steps : Nat → Planner → List (Option Window × Option Nat)
  | 0, _ => []
  | n + 1, p => (p.next.1, p.next.2.cursor) :: steps n p.next.2

example : (steps 4 (new 50 (some 120))).map Prod.fst =
    [some ⟨0, 49⟩, some ⟨50, 99⟩, some ⟨100, 120⟩, none] := by decide +kernel

end Planner

end NoiseTimeline
