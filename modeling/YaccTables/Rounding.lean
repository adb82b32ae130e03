/-!
# Numbers of limited precision

Some rules of layout compute with numbers of 53 binary digits: the result of each step is the number
of that precision that is nearest to the exact one.
-/

namespace YaccTables

/-- The whole number nearest to a quotient; of two as near, the even one. -/
def nearestQuotient (num den : Nat) : Nat :=
  let low := num / den
  let left := 2 * (num % den)
  if left < den ∨ (left = den ∧ low % 2 = 0) then low else low + 1

/-- The exponent of the largest power of two that is not above a positive number. -/
def binaryExponent (x : Rat) : Int :=
  let num := x.num.natAbs
  let guess : Int := num.log2 - x.den.log2
  let isAbove : Bool := match guess with
    | .ofNat k => num < x.den <<< k
    | .negSucc k => num <<< (k + 1) < x.den
  if isAbove then guess - 1 else guess

/-- The number of binary digits of a number of limited precision. -/
def binaryPrecision : Nat := 53

/-- The number of limited precision nearest to a number that is not negative; of two as near, the
one whose last digit is zero. -/
def rounded (x : Rat) : Rat :=
  let num := x.num.natAbs
  match (binaryPrecision : Int) - 1 - binaryExponent x with
  | .ofNat k => mkRat (nearestQuotient (num <<< k) x.den) (1 <<< k)
  | .negSucc k => (nearestQuotient num (x.den <<< (k + 1)) <<< (k + 1) : Nat)

end YaccTables
