/-!
Sets of code points given by ascending inclusive ranges, the form in which the character classes
of this library are tabulated.
-/

namespace YaccTables.Text

/-- Inclusive ranges of code points, in ascending order and disjoint. -/
abbrev Ranges := List (Nat × Nat)

/-- Whether a code point lies in one of the ranges. The search stops at the first range that begins
above the code point, so text from the low end of the code space is decided quickly. -/
def Ranges.contains : Ranges → Nat → Bool
  | [], _ => false
  | (lo, hi) :: rest, c => if c < lo then false else c ≤ hi || Ranges.contains rest c

end YaccTables.Text
