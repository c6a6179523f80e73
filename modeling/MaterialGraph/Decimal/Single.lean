import MaterialGraph.Decimal.Rounding

/-!
The 32-bit floating-point numbers literals are made of, kept as their bits, so that two of
them are equal exactly when they are the same bit for bit.
-/

set_option autoImplicit false

namespace MaterialGraph

open Decimal

/-- A 32-bit floating-point number: one sign bit, eight exponent bits, 23 fraction bits. -/
structure Single where
  bits : UInt32
deriving DecidableEq, Repr, Inhabited

namespace Single

def isNegative (number : Single) : Bool := number.bits.toNat / Nat.pow 2 31 = 1

def exponentField (number : Single) : Nat := number.bits.toNat / Nat.pow 2 23 % Nat.pow 2 8

def fractionField (number : Single) : Nat := number.bits.toNat % Nat.pow 2 23

def isFinite (number : Single) : Bool := number.exponentField ≠ 255

def isNaN (number : Single) : Bool := number.exponentField = 255 ∧ number.fractionField ≠ 0

def magnitude (number : Single) : BinaryNumber :=
  if number.exponentField = 0 then ⟨number.fractionField, -149⟩
  else ⟨number.fractionField + Nat.pow 2 23, (number.exponentField : Int) - 150⟩

/-- The number with a sign and an absolute value of the format. -/
def ofMagnitude (negative : Bool) (magnitude : BinaryNumber) : Single :=
  ⟨UInt32.ofNat ((if negative then Nat.pow 2 31 else 0) +
    ((magnitude.exponent + 149).toNat * Nat.pow 2 23 + magnitude.mantissa))⟩

def infinity (negative : Bool) : Single :=
  ⟨UInt32.ofNat ((if negative then Nat.pow 2 31 else 0) + 255 * Nat.pow 2 23)⟩

/-- A quotient rounded to the format; past the largest finite number it is infinite. -/
def ofRatio (negative : Bool) (numerator denominator : Nat) : Single :=
  match BinaryFormat.single.round numerator denominator with
  | some magnitude => ofMagnitude negative magnitude
  | none => infinity negative

/-- Comparison as numbers: both zeros are equal, and nothing equals a NaN. -/
def sameNumber (left right : Single) : Bool :=
  !left.isNaN && !right.isNaN &&
    (left.bits == right.bits ||
      (left.bits.toNat % Nat.pow 2 31 == 0 && right.bits.toNat % Nat.pow 2 31 == 0))

def zero : Single := ⟨0⟩

def one : Single := ⟨0x3F800000⟩

end Single

end MaterialGraph
