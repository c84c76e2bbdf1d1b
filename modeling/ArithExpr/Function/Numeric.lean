import ArithExpr.Decimal.Binary64

/-!
# Operations on numbers

The smaller and the larger of two numbers, the cube root of a number and the hypotenuse over two
legs.
-/

namespace ArithExpr.Numeric

/-- The smaller of two numbers; a NaN counts as missing. -/
def smaller (x y : Float) : Float :=
  if x.isNaN then y
  else if y.isNaN then x
  else if y < x then y else x

/-- The larger of two numbers; a NaN counts as missing. -/
def larger (x y : Float) : Float :=
  if x.isNaN then y
  else if y.isNaN then x
  else if x < y then y else x

/-- The cube root of a number, rounded once from the exact value. Zeros, infinities and
NaNs are their own cube roots. -/
def cubeRoot (x : Float) : Float :=
  let bits := Binary64.magnitude x
  if bits = 0 ∨ Binary64.infinityBits ≤ bits then x
  else
    let root := Binary64.ofMagnitude (Binary64.ofCube (Binary64.units bits * 2 ^ 2148))
    if Binary64.isNegative x then -root else root

/-- The hypotenuse over two legs near one. The root of the sum of the squares is brought nearer by
one step of Newton's method: `residue` is its square less the squares of the legs, as a sum of
products of small differences, so that few digits cancel. -/
def refinedHypotenuse (long short : Float) : Float :=
  let root := (long * long + short * short).sqrt
  let residue :=
    if root ≤ 2.0 * short then
      let excess := root - short
      long * (2.0 * excess - long) + (excess - 2.0 * (long - short)) * excess
    else
      let excess := root - long
      2.0 * excess * (long - 2.0 * short) + ((4.0 * excess - short) * short + excess * excess)
  root - residue / (2.0 * root)

/-- The square root of `x² + y²`. It is infinite where a coordinate is, even beside a NaN. Finite
legs are scaled by a power of two that brings the longer one near one, so that no square leaves the
range of the format. -/
def hypotenuse (x y : Float) : Float :=
  if x.isInf || y.isInf then Binary64.ofMagnitude Binary64.infinityBits
  else if x.isNaN || y.isNaN then 0.0 / 0.0
  else
    let long := larger x.abs y.abs
    let short := smaller x.abs y.abs
    if short == 0.0 then long
    else
      let exponent := long.frExp.2
      (refinedHypotenuse (long.scaleB (-exponent)) (short.scaleB (-exponent))).scaleB exponent

end ArithExpr.Numeric
