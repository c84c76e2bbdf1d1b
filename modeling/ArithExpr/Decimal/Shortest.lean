import ArithExpr.Decimal.Basic

/-!
# The shortest decimal of a binary64 number

A binary64 number is written with the fewest digits that read back to it. Of two such decimals the
nearer is taken, and of two equally near ones the larger. Main statement: what is written reads
back.
-/

namespace ArithExpr.Decimal

/-- The power of ten of the leading digit of a positive quotient. -/
def leadingPower (numerator denominator : Nat) : Int :=
  if denominator ≤ numerator then
    (Nat.toDigits 10 (numerator / denominator)).length - 1
  else
    - (Nat.toDigits 10 ((denominator - 1) / numerator)).length

/-- The two neighbours of a quotient among the multiples of a power of ten, the nearer first and the
upper one first if they are equally near. -/
def neighbours (numerator denominator : Nat) (power : Int) : List Decimal :=
  let (num, den) := match power with
    | .ofNat n => (numerator, denominator * 10 ^ n)
    | .negSucc n => (numerator * 10 ^ (n + 1), denominator)
  let lower : Decimal := ⟨num / den, power⟩
  let upper : Decimal := ⟨num / den + 1, power⟩
  if 2 * (num % den) < den then [lower, upper] else [upper, lower]

/-- The digits of a unit, which count the power `-1074` of ten. -/
def unitDigits : Nat := 5 ^ 1074

/-- All digits of the finite number with the given bits. -/
def exact (bits : Nat) : Decimal :=
  ⟨Binary64.units bits * unitDigits, .negSucc 1073⟩

/-- The first decimal with at most seventeen digits that reads back to the finite positive number
with the given bits. -/
def short? (bits : Nat) : Option Decimal :=
  let num := Binary64.units bits
  let den := Binary64.unitsInOne
  let top := leadingPower num den
  (List.range 17).findSome? fun places : Nat =>
    ((neighbours num den (top - places)).map trim).find? fun d => d.bits = bits

/-- The shortest decimal that reads back to the finite positive number with the given bits.
Seventeen digits are always enough; all digits stand behind them. -/
def shortest (bits : Nat) : Decimal :=
  (short? bits).getD (exact bits).trim

/-- The digits of a unit are not zero. -/
theorem unitDigits_pos : 0 < unitDigits := by
  decide +kernel

/-- The units in one and the digits of a unit make up a power of ten. -/
theorem ten_pow_eq : 10 ^ (1073 + 1) = Binary64.unitsInOne * unitDigits := by
  decide +kernel

/-- The bits of a number with a negative exponent are those of the quotient by a power of ten. -/
theorem bits_negSucc (digits places : Nat) :
    bits ⟨digits, .negSucc places⟩ = Binary64.ofRatio digits (10 ^ (places + 1)) :=
  bits_eq_ofRatio _

/-- All digits of a number read back to it. -/
theorem bits_exact {bits : Nat} (finite : bits < Binary64.infinityBits) :
    (exact bits).bits = bits := by
  unfold exact
  rw [bits_negSucc, ten_pow_eq, Binary64.ofRatio_mul unitDigits_pos]
  exact Binary64.ofRatio_units finite

/-- The digits found have the bits that they were looked for. -/
theorem bits_of_short? {bits : Nat} {d : Decimal} (found : short? bits = some d) :
    d.bits = bits := by
  obtain ⟨places, -, hit⟩ := List.exists_of_findSome?_eq_some found
  have reads := List.find?_some hit
  exact of_decide_eq_true reads

/-- The shortest decimal of a number reads back to it. -/
theorem bits_shortest {bits : Nat} (finite : bits < Binary64.infinityBits) :
    (shortest bits).bits = bits := by
  unfold shortest
  cases found : short? bits with
  | none => rw [Option.getD_none, bits_trim, bits_exact finite]
  | some d => exact bits_of_short? found

end ArithExpr.Decimal
