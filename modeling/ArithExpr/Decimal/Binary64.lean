/-!
# Rounding to binary64

The bits of a non-negative binary64 number, read as a natural number, grow with the number they
stand for, so rounding is a function from exact values to natural numbers. Exact values are counted
in units of 2 ^ -1074, the smallest positive number of the format. Main statements: `nearest` gives
back the bits of every value that is itself a binary64 number.
-/

namespace ArithExpr.Binary64

/-- The power of natural numbers is the one of the core library, whatever else is imported. -/
@[default_instance 20000]
instance natPow : Pow Nat Nat :=
  instPowNat

/-- The bits of positive infinity, the least bits that stand for no finite number. -/
def infinityBits : Nat := 0x7FF0000000000000

/-- The number of units in one. -/
def unitsInOne : Nat := 2 ^ 1074

/-- The number of units in the finite non-negative number with the given bits. -/
def units (bits : Nat) : Nat :=
  let exponent := bits / 2 ^ 52 - 1
  (bits - exponent * 2 ^ 52) * 2 ^ exponent

/-- The bits of the number nearest to a value, a tie going to the even neighbour and a value beyond
the largest number to infinity. The value enters as the number of half units in it, rounded down,
and whether that number is the exact value. -/
def nearest (halves : Nat) (exact : Bool) : Nat :=
  let shift := max (halves.log2 - 52) 1
  let kept := halves / 2 ^ shift
  let dropped := halves % 2 ^ shift
  let tie := 2 ^ (shift - 1)
  let up := tie < dropped || (tie == dropped && (!exact || kept % 2 == 1))
  min ((shift - 1) * 2 ^ 52 + kept + up.toNat) infinityBits

/-- The bits of the number nearest to a quotient of natural numbers. -/
def ofRatio (numerator denominator : Nat) : Nat :=
  let scaled := numerator * (2 * unitsInOne)
  nearest (scaled / denominator) (scaled % denominator == 0)

/-- The cube root of a natural number, rounded down, from a guess that is not below it. -/
def cubeRootFrom (n guess : Nat) : Nat :=
  let next := (2 * guess + n / (guess * guess)) / 3
  if next < guess then cubeRootFrom n next else guess
termination_by guess

/-- The cube root of a natural number, rounded down. -/
def cubeRoot (n : Nat) : Nat :=
  cubeRootFrom n (2 ^ (n.log2 / 3 + 1))

/-- The bits of the number nearest to the cube root of a number of cubed units. -/
def ofCube (cubedUnits : Nat) : Nat :=
  let scaled := 8 * cubedUnits
  let root := cubeRoot scaled
  nearest root (root * root * root == scaled)

/-- The bits of a number without its sign. -/
def magnitude (x : Float) : Nat :=
  x.toBits.toNat % 2 ^ 63

/-- Whether the sign bit of a number is set. -/
def isNegative (x : Float) : Bool :=
  2 ^ 63 ≤ x.toBits.toNat

/-- The number with the given bits. -/
def ofMagnitude (bits : Nat) : Float :=
  Float.ofBits (UInt64.ofNat bits)

/-- One is a positive number of the smallest units. -/
theorem unitsInOne_pos : 0 < unitsInOne := by
  decide +kernel

/-- The shift that rounding finds for a mantissa that fits is its exponent, so no bit is cut off. -/
theorem shift_of_mantissa {mantissa exponent : Nat} (fits : mantissa < 2 ^ 53)
    (normal : exponent = 0 ∨ 2 ^ 52 ≤ mantissa) :
    max ((mantissa * 2 ^ (exponent + 1)).log2 - 52) 1 = exponent + 1 := by
  rcases normal with rfl | normal
  · by_cases zero : mantissa = 0
    · simp [zero]
    · have : (mantissa * 2 ^ (0 + 1)).log2 < 54 := (Nat.log2_lt (by omega)).2 (by omega)
      omega
  · have pos : 0 < 2 ^ (exponent + 1) := Nat.two_pow_pos _
    have nonzero : mantissa * 2 ^ (exponent + 1) ≠ 0 := Nat.ne_of_gt (Nat.mul_pos (by omega) pos)
    have low : 2 ^ (52 + (exponent + 1)) ≤ mantissa * 2 ^ (exponent + 1) := by
      rw [Nat.pow_add 2 52]
      exact Nat.mul_le_mul_right _ normal
    have high : mantissa * 2 ^ (exponent + 1) < 2 ^ (53 + (exponent + 1)) := by
      rw [Nat.pow_add 2 53]
      exact Nat.mul_lt_mul_of_pos_right fits pos
    have : (mantissa * 2 ^ (exponent + 1)).log2 = 52 + (exponent + 1) :=
      (Nat.log2_eq_iff nonzero).2 ⟨low, by
        rwa [show 52 + (exponent + 1) + 1 = 53 + (exponent + 1) by omega]⟩
    omega

/-- A value that is a binary64 number keeps its mantissa and exponent. -/
theorem nearest_of_mantissa {mantissa exponent : Nat} (fits : mantissa < 2 ^ 53)
    (normal : exponent = 0 ∨ 2 ^ 52 ≤ mantissa) :
    nearest (2 * (mantissa * 2 ^ exponent)) true =
      min (exponent * 2 ^ 52 + mantissa) infinityBits := by
  have halves : 2 * (mantissa * 2 ^ exponent) = mantissa * 2 ^ (exponent + 1) := by
    rw [Nat.pow_succ, ← Nat.mul_assoc mantissa, Nat.mul_comm 2]
  have tie : ((2 : Nat) ^ exponent == 0) = false :=
    beq_eq_false_iff_ne.2 (Nat.ne_of_gt (Nat.two_pow_pos _))
  have pos : 0 < 2 ^ (exponent + 1) := Nat.two_pow_pos _
  simp only [nearest, halves, shift_of_mantissa fits normal, Nat.mul_mod_left,
    Nat.mul_div_cancel _ pos, Nat.add_sub_cancel, tie]
  simp

/-- Rounding gives back the bits of a finite number. -/
theorem nearest_units {bits : Nat} (finite : bits < infinityBits) :
    nearest (2 * units bits) true = bits := by
  have finite : bits < 0x7FF0000000000000 := finite
  rw [units, nearest_of_mantissa (by omega) (by omega), infinityBits]
  omega

/-- A quotient is rounded the same with its parts multiplied by a common factor. -/
theorem ofRatio_mul {numerator denominator factor : Nat} (pos : 0 < factor) :
    ofRatio (numerator * factor) (denominator * factor) = ofRatio numerator denominator := by
  have exact : ((numerator * (2 * unitsInOne) % denominator * factor == 0) : Bool) =
      (numerator * (2 * unitsInOne) % denominator == 0) := by
    rw [Bool.eq_iff_iff, beq_iff_eq, beq_iff_eq, Nat.mul_eq_zero]
    omega
  simp only [ofRatio, Nat.mul_right_comm numerator factor, Nat.mul_div_mul_right _ _ pos,
    Nat.mul_mod_mul_right, exact]

/-- Rounding a finite number, written as a quotient, gives back its bits. -/
theorem ofRatio_units {bits : Nat} (finite : bits < infinityBits) :
    ofRatio (units bits) unitsInOne = bits := by
  simp only [ofRatio, ← Nat.mul_assoc, Nat.mul_div_cancel _ unitsInOne_pos, Nat.mul_mod_left,
    Nat.mul_comm _ 2]
  exact nearest_units finite

/-- A quotient below half a unit is rounded to zero. -/
theorem ofRatio_eq_zero {numerator denominator : Nat}
    (small : numerator * (2 * unitsInOne) < denominator) : ofRatio numerator denominator = 0 := by
  simp only [ofRatio, Nat.div_eq_of_lt small]
  cases numerator * (2 * unitsInOne) % denominator == 0 <;> rfl

/-- A number of half units with more than 2099 binary digits is rounded to infinity. -/
theorem nearest_eq_infinity {halves : Nat} (large : 2099 ≤ halves.log2) (exact : Bool) :
    nearest halves exact = infinityBits := by
  have nonzero : halves ≠ 0 := by
    rintro rfl
    simp at large
  have shift : max (halves.log2 - 52) 1 = halves.log2 - 52 := by omega
  have kept : 2 ^ 52 ≤ halves / 2 ^ (halves.log2 - 52) := by
    rw [Nat.le_div_iff_mul_le (Nat.two_pow_pos _), ← Nat.pow_add,
      show 52 + (halves.log2 - 52) = halves.log2 by omega]
    exact Nat.log2_self_le nonzero
  simp only [nearest, shift, infinityBits]
  omega

end ArithExpr.Binary64
