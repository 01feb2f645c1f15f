/-!
# Sets of code points

A set of code points is a list of ranges in rising order, so a search stops at the first range
that starts beyond the code point it looks for.
-/

namespace RobotShell.Unicode

/-- Disjoint inclusive ranges of code points, in rising order. -/
abbrev Ranges := List (Nat × Nat)

/-- Whether a code point lies in one of the ranges. -/
def Ranges.contains : Ranges → Nat → Bool
  | [], _ => false
  | (lo, hi) :: rest, n => if n < lo then false else n ≤ hi || Ranges.contains rest n

end RobotShell.Unicode
