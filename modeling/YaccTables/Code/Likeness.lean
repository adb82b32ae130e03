import YaccTables.Rounding

/-!
# Alike sizes

In a list of keys with values, the values stand under each other as long as the sizes of the keys
are alike. A key differs if it or the key before is longer than 40 bytes and its size differs by a
factor of 2.5 or more from the mean of its section, where each step of the computation has limited
precision.
-/

namespace YaccTables.Code

/-- The binary logarithm, interpolated linearly between powers of two. -/
def logTwo (n : Nat) : Rat := (n.log2 : Rat) + ((n : Rat) / ((1 <<< n.log2 : Nat) : Rat) - 1)

/-- The inverse of `logTwo` on numbers that are not negative. -/
def expTwo (x : Rat) : Rat := rounded (1 + (x - x.floor)) * ((1 <<< x.floor.toNat : Nat) : Rat)

/-- What is known of the sizes in a section: the sum of their logarithms, and their number. -/
structure Likeness where
  logSum : Rat := 0
  count : Nat := 0

namespace Likeness

/-- The mean size of a section. -/
def mean (s : Likeness) : Rat := expTwo (rounded (s.logSum / s.count))

/-- Keys of at most this size are always alike. -/
def smallSize : Nat := 40

/-- The factor by which sizes are unlike. -/
def unlikeFactor : Rat := 5 / 2

/-- Whether a size, after another, goes on with a section. -/
def admits (s : Likeness) (before size : Nat) : Bool :=
  s.count == 0 || (before ≤ smallSize && size ≤ smallSize) ||
    (let ratio := rounded (size / s.mean)
     decide (1 < rounded (unlikeFactor * ratio)) && decide (ratio < unlikeFactor))

/-- The section with one more size. -/
def extend (s : Likeness) (size : Nat) : Likeness := ⟨s.logSum + logTwo size, s.count + 1⟩

end Likeness

end YaccTables.Code
