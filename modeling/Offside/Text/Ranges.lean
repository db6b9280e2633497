/-
  Sets of code points, given as ascending and disjoint ranges
  whose two ends belong to them.

  Key definitions include:
    * `Offside.Text.Ranges`
    * `Offside.Text.Ranges.contains`
    * `Offside.Text.Ranges.find?`
-/

------------------------------------------------------------
-- Ranges of Code Points
------------------------------------------------------------

namespace Offside.Text

/- Ascending, disjoint ranges of code points. -/
abbrev Ranges := List (Nat × Nat)

namespace Ranges

/-
  The start of the range that holds a code point.  The search
  stops at the first range that lies above it.
-/
def find? :
    Ranges →
    Nat →
    Option Nat
  | [], _ => none
  | (low, high) :: ranges, n =>
      if n < low then none
      else if n ≤ high then some low
      else find? ranges n

/- Whether some range holds the code point. -/
def contains
    (ranges : Ranges)
    (n : Nat) :
    Bool :=
  (ranges.find? n).isSome

end Ranges

end Offside.Text
