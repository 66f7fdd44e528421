/-!
# Sets of code points

A set of code points is written as the increasing list of points at which membership changes:
the first boundary opens the set, the second closes it, and so on. A code point is in the set
exactly when an odd number of boundaries is at or below it.
-/

namespace OntoGraph.Text

/-- The boundaries of a set of code points, in increasing order. -/
abbrev Boundaries := Array Nat

/-- Membership of a code point: an odd number of boundaries is at or below it. -/
def Boundaries.has (boundaries : Boundaries) (c : Char) : Bool :=
  boundaries.countP (· ≤ c.toNat) % 2 == 1

end OntoGraph.Text
