/-!
Sets of code points, given as ascending ranges that neither overlap nor touch.

* `CodeRanges.contains`: whether a code point lies in one of the ranges;
* `CodeRanges.within`: the part of the set between two code points, again as such ranges.
-/

namespace RuleLexer

/-- A set of code points: the first and the last code point of each range, in ascending order. -/
abbrev CodeRanges := List (Nat × Nat)

namespace CodeRanges

/-- Whether `n` lies in one of the ranges. The search ends at the first range that does not end
below `n`, since every later one begins above. -/
def contains : CodeRanges → Nat → Bool
  | [], _ => false
  | (first, last) :: rest, n => if n ≤ last then first ≤ n else contains rest n

/-- The part of the ranges that lies between `low` and `high`, both included. -/
def within (low high : Nat) (ranges : CodeRanges) : CodeRanges :=
  ranges.filterMap fun (first, last) =>
    if max first low ≤ min last high then some (max first low, min last high) else none

end CodeRanges

end RuleLexer
