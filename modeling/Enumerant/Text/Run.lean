/-!
# Runs of code points

A property of characters is given as a list of runs, and a simple case mapping as a list of runs
that are shifted. A run with step two holds every other code point, the way the cased pairs of the
extended alphabets are laid out.
-/

namespace Enumerant.Text

/-- The code points `first`, `first + step`, … up to `last`. -/
structure Run where
  first : Nat
  last : Nat
  step : Nat

/-- Whether a code point belongs to a run. -/
def Run.contains (r : Run) (n : Nat) : Bool :=
  r.first ≤ n && n ≤ r.last && (n - r.first) % r.step == 0

/-- A run whose code points are all moved by the same distance. -/
structure Shift where
  run : Run
  distance : Int

/-- Where a list of shifts sends a code point; one that no run holds stays. -/
def Shift.apply (shifts : List Shift) (n : Nat) : Nat :=
  match shifts.find? (·.run.contains n) with
  | some s => (n + s.distance).toNat
  | none => n

end Enumerant.Text
