/-!
# Classes of characters as ranges

A class of characters is a list of ranges of code points in ascending order, so that a look-up stops
at the first range that begins beyond the code point.
-/

namespace LiveSpec.Text

/-- Says whether a code point lies in one of the ranges. -/
def within (n : Nat) : List (Nat × Nat) → Bool
  | [] => false
  | (low, high) :: rest => if n < low then false else n ≤ high || within n rest

end LiveSpec.Text
