import ArithExpr.Decimal.Display
import ArithExpr.Proofs.Expr.Legible
import ArithExpr.Proofs.Token.Words
import Mathlib

/-!
# How numbers are written

A finite number with a clear sign bit is written as digits with at most one point, and the lexer
reads the number back from them. Main statements: the text of such a number spells it
(`Cut.spells_numberText`), and words spell no other finite numbers (`Cut.Spells.given`).
-/

namespace ArithExpr
open Float.Model (UnpackedFloat)

namespace Binary64
variable {x : Float} {bits : Nat}

/-- The exponent of an unpacked number is the field of its bits above the mantissa. -/
lemma toNat_unpackExponent (b : BitVec 64) :
    (@UnpackedFloat.unpackExponent .binary64 b).toNat = b.toNat / 2 ^ 52 % 2 ^ 11 := by
  rw [UnpackedFloat.unpackExponent_def, BitVec.extractLsb'_toNat, Nat.shiftRight_eq_div_pow]

/-- The exponent of a finite number is none of infinities and NaNs. -/
lemma exponent_ne_of_isFinite (finite : x.isFinite = true) :
    x.toBits.toNat / 2 ^ 52 % 2 ^ 11 ≠ 2047 := by
  intro full
  have exponent : @UnpackedFloat.unpackExponent .binary64 x.toBits.toBitVec = -1#11 := by
    apply BitVec.eq_of_toNat_eq
    rw [toNat_unpackExponent]
    exact full
  have infinite : (UnpackedFloat.unpack .binary64 x.toBits.toBitVec).isFinite = false := by
    unfold UnpackedFloat.unpack
    simp only [exponent, if_true]
    split <;> rfl
  exact Bool.false_ne_true (infinite.symm.trans finite)

/-- The bits of a finite number are below those of infinity. -/
lemma magnitude_lt_of_isFinite (finite : x.isFinite = true) : magnitude x < infinityBits := by
  have exponent := exponent_ne_of_isFinite finite
  have bound := x.toBits.toNat_lt
  unfold magnitude infinityBits
  omega

/-- A finite number is no NaN. -/
lemma isNaN_of_isFinite (finite : x.isFinite = true) : x.isNaN = false := by
  rw [Float.isFinite, Float.Model.isFinite] at finite
  rw [Float.isNaN, Float.Model.isNaN]
  cases unpacked : x.toModel.unpack with
  | notANumber =>
    rw [unpacked] at finite
    cases finite
  | _ => rfl

/-- A number with a clear sign bit is given by its magnitude. -/
lemma ofMagnitude_magnitude (unsigned : isNegative x = false) : ofMagnitude (magnitude x) = x := by
  have below : x.toBits.toNat < 2 ^ 63 := Nat.lt_of_not_le (of_decide_eq_false unsigned)
  rw [ofMagnitude, magnitude, Nat.mod_eq_of_lt below, UInt64.ofNat_toNat, Float.ofBits_toBits]

/-- Bits up to those of infinity are those of the number that they stand for. -/
lemma toNat_toBits_ofMagnitude (le : bits ≤ infinityBits) :
    (ofMagnitude bits).toBits.toNat = bits := by
  have small : bits < 2 ^ 64 := Nat.lt_of_le_of_lt le (by decide)
  have number : @UnpackedFloat.isNaNBits .binary64 (BitVec.ofNat 64 bits) = false := by
    refine decide_eq_false ?_
    rintro ⟨exponent, mantissa⟩
    have full : (BitVec.ofNat 64 bits).toNat / 2 ^ 52 % 2 ^ 11 = 2047 := by
      rw [← toNat_unpackExponent, exponent]
      rfl
    rw [BitVec.toNat_ofNat, Nat.mod_eq_of_lt small] at full
    -- the only bits with this exponent up to infinity are those of infinity, with no mantissa
    have infinite : bits = infinityBits := by
      unfold infinityBits at le ⊢
      omega
    subst infinite
    exact mantissa rfl
  show (UnpackedFloat.pack .binary64
    (UnpackedFloat.unpack .binary64 (BitVec.ofNat 64 bits))).toNat = bits
  rw [UnpackedFloat.pack_unpack, number]
  simp only [Bool.false_eq_true, if_false]
  exact Nat.mod_eq_of_lt small

/-- No magnitude up to infinity has a sign. -/
lemma isNegative_ofMagnitude (le : bits ≤ infinityBits) :
    isNegative (ofMagnitude bits) = false := by
  have below : infinityBits < 2 ^ 63 := by decide
  rw [isNegative, toNat_toBits_ofMagnitude le]
  exact decide_eq_false (by omega)

/-- Rounding does not go beyond infinity. -/
lemma nearest_le (halves : Nat) (exact : Bool) : nearest halves exact ≤ infinityBits :=
  Nat.min_le_right _ _

end Binary64

namespace Decimal

/-- No decimal number is read as more than infinity. -/
lemma bits_le (d : Decimal) : d.bits ≤ Binary64.infinityBits := by
  rw [bits_eq_ofRatio]
  exact Binary64.nearest_le _ _

/-- A decimal in positional notation is digits with at most one point. -/
lemma mantissa_text (d : Decimal) : Cut.Mantissa d.text := by
  obtain ⟨digits, exponent⟩ := d
  have nonempty (n : Nat) : Nat.toDigits 10 n ≠ [] :=
    List.length_pos_iff.1 Nat.length_toDigits_pos
  cases exponent with
  | ofNat power => exact .whole (nonempty _) (isDigit_toDigits _)
  | negSucc power =>
    exact .point (.inl (nonempty _)) (isDigit_toDigits _) (isDigit_paddedDigits _ _)

end Decimal

/-- The digits printed for a finite number are a mantissa. -/
lemma mantissa_magnitudeText {bits : Nat} (finite : bits < Binary64.infinityBits) :
    Cut.Mantissa (magnitudeText bits) := by
  by_cases zero : bits = 0
  · rw [magnitudeText, if_pos zero]
    exact .whole (List.cons_ne_nil _ _) (List.forall_mem_singleton.2 rfl)
  · rw [magnitudeText, if_neg zero, if_pos finite]
    exact Decimal.mantissa_text _

namespace Cut

/-- A finite number with a clear sign bit is spelled by its text. -/
theorem spells_numberText {x : Float} (finite : x.isFinite = true)
    (unsigned : Binary64.isNegative x = false) :
    Spells (numberText x).toList (.number x) GoesOnNumeral := by
  have bound := Binary64.magnitude_lt_of_isFinite finite
  obtain ⟨d, reads, same⟩ := Option.map_eq_some_iff.1 (bits_of_magnitudeText bound)
  have value : d.toFloat = x := by
    rw [Decimal.toFloat, same, Binary64.ofMagnitude_magnitude unsigned]
  have text : (numberText x).toList = magnitudeText (Binary64.magnitude x) := by
    simp only [numberText, Binary64.isNaN_of_isFinite finite, unsigned, Bool.false_eq_true,
      if_false, String.toList_ofList]
  have spells := Spells.decimal (mantissa_magnitudeText bound) reads
  rw [value] at spells
  rw [text]
  exact spells

/-- A word that is a number has no sign, and a word that is a name is a run of letters. -/
theorem Spells.given {text lexeme goesOn} (spells : Spells text lexeme goesOn) :
    lexeme.Given (Binary64.isNegative · = false) Expr.IsName := by
  cases spells with
  | symbol symbol =>
    unfold Lexeme.ofSymbol? at symbol
    split at symbol
    all_goals cases symbol
    all_goals trivial
  | name nonempty all =>
    rw [Lexeme.Given, Expr.IsName, String.toList_ofList]
    exact ⟨nonempty, all⟩
  | @decimal _ d => exact Binary64.isNegative_ofMagnitude d.bits_le
  | @scientific _ _ d => exact Binary64.isNegative_ofMagnitude d.bits_le

end Cut
end ArithExpr
