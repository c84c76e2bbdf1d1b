import ArithExpr.Decimal.Binary64

/-!
# Decimal numbers

A decimal number is an integer times a power of ten. `Decimal.ofText?` reads one from a numeral,
`Decimal.text` writes one without an exponent, and `Decimal.bits` rounds one to binary64.
-/

namespace ArithExpr

/-- The number `digits · 10 ^ exponent`. -/
structure Decimal where
  /-- The significant digits. -/
  digits : Nat
  /-- The power of ten that they count. -/
  exponent : Int
deriving DecidableEq, Repr

namespace Decimal

/-- The number as a quotient of natural numbers. -/
def ratio (d : Decimal) : Nat × Nat :=
  match d.exponent with
  | .ofNat n => (d.digits * 10 ^ n, 1)
  | .negSucc n => (d.digits, 10 ^ (n + 1))

/-- The bits of the binary64 number nearest to a decimal number. A number from 10 ^ 310 on is
infinite and one below half the smallest positive number is zero; both are told by the exponent, so
that no power of ten is formed that the result does not need. -/
def bits (d : Decimal) : Nat :=
  if d.digits = 0 then 0
  else if 310 ≤ d.exponent then Binary64.infinityBits
  else if d.exponent + d.digits.log2 + 1076 ≤ 0 then 0
  else Binary64.ofRatio d.ratio.1 d.ratio.2

/-- The binary64 number nearest to a decimal number. -/
def toFloat (d : Decimal) : Float :=
  Binary64.ofMagnitude d.bits

/-- Moves the trailing zeros of the digits into the exponent. -/
def trim (d : Decimal) : Decimal :=
  if d.digits ≠ 0 ∧ d.digits % 10 = 0 then trim ⟨d.digits / 10, d.exponent + 1⟩ else d
termination_by d.digits
decreasing_by omega

/-- A number below `10 ^ places`, written with that many digits. -/
def paddedDigits (places n : Nat) : List Char :=
  let ds := Nat.toDigits 10 n
  List.replicate (places - ds.length) '0' ++ ds

/-- The digits of a decimal number in positional notation. -/
def text (d : Decimal) : List Char :=
  match d.exponent with
  | .ofNat n => Nat.toDigits 10 (d.digits * 10 ^ n)
  | .negSucc n =>
    Nat.toDigits 10 (d.digits / 10 ^ (n + 1)) ++
      '.' :: paddedDigits (n + 1) (d.digits % 10 ^ (n + 1))

/-- A multiple of a power of ten that is large enough is rounded to infinity. -/
theorem ofRatio_infinite {digits power least bits : Nat} (nonzero : digits ≠ 0)
    (large : least ≤ power) (huge : 2099 ≤ bits)
    (infinite : 2 ^ bits ≤ 10 ^ least * (2 * Binary64.unitsInOne)) :
    Binary64.ofRatio (digits * 10 ^ power) 1 = Binary64.infinityBits := by
  have value : 10 ^ least ≤ digits * 10 ^ power :=
    Nat.le_trans (Nat.pow_le_pow_right (Nat.succ_pos 9) large)
      (Nat.le_mul_of_pos_left _ (Nat.pos_of_ne_zero nonzero))
  have halves : 2 ^ bits ≤ digits * 10 ^ power * (2 * Binary64.unitsInOne) :=
    Nat.le_trans infinite (Nat.mul_le_mul_right _ value)
  have nonzero : digits * 10 ^ power * (2 * Binary64.unitsInOne) ≠ 0 :=
    Nat.ne_of_gt (Nat.lt_of_lt_of_le (Nat.two_pow_pos bits) halves)
  simp only [Binary64.ofRatio, Nat.div_one]
  exact Binary64.nearest_eq_infinity (Nat.le_trans huge ((Nat.le_log2 nonzero).2 halves)) _

/-- A number from `10 ^ 310` on is rounded to infinity. -/
theorem ofRatio_large {digits power : Nat} (nonzero : digits ≠ 0) (large : 310 ≤ power) :
    Binary64.ofRatio (digits * 10 ^ power) 1 = Binary64.infinityBits :=
  ofRatio_infinite nonzero large (Nat.le_refl 2099) (by decide +kernel)

/-- A number whose exponent lies far enough below zero is rounded to zero. -/
theorem ofRatio_small {digits power : Nat} (small : digits.log2 + 1076 ≤ power) :
    Binary64.ofRatio digits (10 ^ power) = 0 := by
  refine Binary64.ofRatio_eq_zero ?_
  obtain ⟨extra, rfl⟩ : ∃ extra, power = digits.log2 + 1 + extra + 1075 :=
    ⟨power - (digits.log2 + 1076), by omega⟩
  have digits_lt : digits < 10 ^ (digits.log2 + 1 + extra) :=
    calc digits < 2 ^ (digits.log2 + 1) := Nat.lt_log2_self
      _ ≤ 2 ^ (digits.log2 + 1 + extra) := Nat.pow_le_pow_right (by decide) (by omega)
      _ ≤ 10 ^ (digits.log2 + 1 + extra) := Nat.pow_le_pow_left (by decide) _
  have units_le : 2 * Binary64.unitsInOne ≤ 10 ^ 1075 := by decide +kernel
  have units_pos := Binary64.unitsInOne_pos
  rw [Nat.pow_add 10 (digits.log2 + 1 + extra) 1075]
  calc digits * (2 * Binary64.unitsInOne)
      < 10 ^ (digits.log2 + 1 + extra) * (2 * Binary64.unitsInOne) :=
        Nat.mul_lt_mul_of_pos_right digits_lt (by omega)
    _ ≤ 10 ^ (digits.log2 + 1 + extra) * 10 ^ 1075 := Nat.mul_le_mul_left _ units_le

/-- Whether a number is out of range may be told by its exponent. -/
theorem bits_eq_ofRatio (d : Decimal) : d.bits = Binary64.ofRatio d.ratio.1 d.ratio.2 := by
  obtain ⟨digits, exponent⟩ := d
  unfold bits
  dsimp only
  split
  next zero =>
    subst zero
    cases exponent <;> simp only [ratio, Binary64.ofRatio, Nat.zero_mul, Nat.zero_div] <;> rfl
  next nonzero =>
    split
    next large =>
      cases exponent with
      | ofNat power => exact (ofRatio_large nonzero (Int.ofNat_le.1 large)).symm
      | negSucc power => exact absurd large (by omega)
    next =>
      split
      next small =>
        cases exponent with
        | ofNat power => exact absurd small (by simp only [Int.ofNat_eq_natCast]; omega)
        | negSucc power =>
          exact (@ofRatio_small digits (power + 1) (by omega)).symm
      next => rfl

/-- A digit zero at the end may be moved into the exponent. -/
theorem bits_shift (digits : Nat) (exponent : Int) :
    bits ⟨digits * 10, exponent⟩ = bits ⟨digits, exponent + 1⟩ := by
  rw [bits_eq_ofRatio, bits_eq_ofRatio]
  cases exponent with
  | ofNat power =>
    have next : Int.ofNat power + 1 = Int.ofNat (power + 1) := rfl
    simp only [ratio, next, Nat.pow_succ]
    rw [Nat.mul_assoc, Nat.mul_comm 10]
  | negSucc power =>
    cases power with
    | zero =>
      have next : Int.negSucc 0 + 1 = Int.ofNat 0 := rfl
      simp only [ratio, next, Nat.pow_zero, Nat.mul_one]
      exact @Binary64.ofRatio_mul digits 1 10 (by decide)
    | succ power =>
      have next : Int.negSucc (power + 1) + 1 = Int.negSucc power := by omega
      simp only [ratio, next, Nat.pow_succ 10 (power + 1)]
      exact Binary64.ofRatio_mul (by decide)

/-- Zeros at the end of the digits do not change the number. -/
@[simp] theorem bits_trim (d : Decimal) : d.trim.bits = d.bits := by
  fun_induction trim d with
  | case1 d trailing ih =>
    rw [ih, ← bits_shift, Nat.div_mul_cancel (Nat.dvd_of_mod_eq_zero trailing.2)]
  | case2 => rfl

end Decimal
end ArithExpr
