/-!
Sorting a list without disturbing the order of equals.

* `stableSort`: a list in ascending order of `le`, equals in the order in which they came;
* `perm_stableSort`: nothing is lost and nothing is added.
-/

namespace RuleLexer

variable {α : Type}

/-- Puts `a` before the first element that it is not above. -/
def insertSorted (le : α → α → Bool) (a : α) : List α → List α
  | [] => [a]
  | b :: l => if le a b then a :: b :: l else b :: insertSorted le a l

/-- The list in ascending order. An element goes in front of those after it that are its equals,
so equals keep their order. -/
def stableSort (le : α → α → Bool) : List α → List α
  | [] => []
  | a :: l => insertSorted le a (stableSort le l)

/-- Inserting adds the one element. -/
theorem perm_insertSorted (le : α → α → Bool) (a : α) (l : List α) :
    (insertSorted le a l).Perm (a :: l) := by
  induction l with
  | nil => exact .refl _
  | cons b l ih =>
    rw [insertSorted]
    split
    · exact .refl _
    · exact (ih.cons b).trans (.swap a b l)

/-- Sorting only changes the order. -/
theorem perm_stableSort (le : α → α → Bool) (l : List α) : (stableSort le l).Perm l := by
  induction l with
  | nil => exact .refl _
  | cons a l ih => exact (perm_insertSorted le a _).trans (ih.cons a)

end RuleLexer
