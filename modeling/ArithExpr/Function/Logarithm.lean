import ArithExpr.Decimal.Binary64

/-!
# The decimal logarithm

The decimal logarithm of a number, found from logarithms in fixed point with far more places than a
binary64 number has and rounded once.
-/

namespace ArithExpr.Logarithm

/-- The value one in fixed point. -/
def one : Nat := 2 ^ 256

/-- The next `count` terms of the sum of the powers of a number of odd exponent, each divided by its
exponent; `exponent` and `power` belong to the first of these terms. -/
def oddPowers (square : Nat) : (count exponent power : Nat) → Nat
  | 0, _, _ => 0
  | count + 1, exponent, power =>
    power / exponent + oddPowers square count (exponent + 2) (power * square / one)

/-- The natural logarithm of a quotient between one and two, in fixed point. With
`z = (n - d) / (n + d)` it is twice the sum of the `z ^ k / k` over odd `k`, and as `z` is at most a
third, ninety terms leave less than the last place. -/
def ofQuotient (n d : Nat) : Nat :=
  let z := (n - d) * one / (n + d)
  2 * oddPowers (z * z / one) 90 1 z

/-- The natural logarithm of two, in fixed point. -/
def two : Nat := ofQuotient 2 1

/-- The natural logarithm of ten, in fixed point. -/
def ten : Nat := 3 * two + ofQuotient 5 4

/-- The natural logarithm of a positive number of units, in fixed point. -/
def ofUnits (units : Nat) : Int :=
  let power := units.log2
  ((power : Int) - 1074) * two + ofQuotient units (2 ^ power)

/-- The decimal logarithm of a number above zero, or of a NaN. -/
def decimal (x : Float) : Float :=
  let bits := Binary64.magnitude x
  if Binary64.infinityBits ≤ bits then x
  else
    let natural := ofUnits (Binary64.units bits)
    let halves := natural.natAbs * (2 * Binary64.unitsInOne) / ten
    let size := Binary64.ofMagnitude (Binary64.nearest halves (halves == 0))
    if natural < 0 then -size else size

end ArithExpr.Logarithm
