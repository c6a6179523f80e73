/-!
Rounding to nearest. A quotient is rounded to a whole number, and a non-negative rational to
a binary floating-point format; in both a tie goes to the even neighbour.
-/

set_option autoImplicit false

namespace MaterialGraph.Decimal

/-- The whole number nearest to the quotient; of two equally near ones the even one. -/
def roundHalfEven (numerator denominator : Nat) : Nat :=
  let quotient := numerator / denominator
  let twice := 2 * (numerator % denominator)
  if twice < denominator then quotient
  else if denominator < twice then quotient + 1
  else if quotient % 2 = 0 then quotient
  else quotient + 1

/-- The number `mantissa * 2 ^ exponent`. -/
structure BinaryNumber where
  mantissa : Nat
  exponent : Int
deriving DecidableEq, Repr

namespace BinaryNumber

/-- Numerator and denominator of the same number. -/
def ratio (number : BinaryNumber) : Nat × Nat :=
  (number.mantissa * Nat.pow 2 number.exponent.toNat, Nat.pow 2 (-number.exponent).toNat)

end BinaryNumber

/-- A binary format: significands below `2 ^ precision`, scaled by `2 ^ q` with
`lowest ≤ q ≤ highest`. -/
structure BinaryFormat where
  precision : Nat
  lowest : Int
  highest : Int
deriving DecidableEq, Repr

namespace BinaryFormat

def single : BinaryFormat := ⟨24, -149, 104⟩

def double : BinaryFormat := ⟨53, -1074, 971⟩

/-- The exponent `e` with `2 ^ e ≤ numerator / denominator < 2 ^ (e + 1)`. -/
def binaryExponent (numerator denominator : Nat) : Int :=
  let estimate : Int := (numerator.log2 : Int) - (denominator.log2 : Int)
  if numerator * Nat.pow 2 (-estimate).toNat < denominator * Nat.pow 2 estimate.toNat then
    estimate - 1
  else estimate

/-- The member of the format nearest to the quotient, or `none` when the quotient rounds past
the largest one. -/
def round (format : BinaryFormat) (numerator denominator : Nat) : Option BinaryNumber :=
  if numerator = 0 then some ⟨0, format.lowest⟩
  else
    let exponent := max format.lowest
      (binaryExponent numerator denominator - (format.precision - 1 : Nat))
    let mantissa := roundHalfEven (numerator * Nat.pow 2 (-exponent).toNat)
      (denominator * Nat.pow 2 exponent.toNat)
    let rounded : BinaryNumber :=
      if mantissa = Nat.pow 2 format.precision then ⟨Nat.pow 2 (format.precision - 1), exponent + 1⟩
      else ⟨mantissa, exponent⟩
    if format.highest < rounded.exponent then none else some rounded

/-- The product, rounded once. -/
def mul (format : BinaryFormat) (left right : BinaryNumber) : Option BinaryNumber :=
  let (leftTop, leftBottom) := left.ratio
  let (rightTop, rightBottom) := right.ratio
  format.round (leftTop * rightTop) (leftBottom * rightBottom)

/-- The quotient, rounded once. -/
def div (format : BinaryFormat) (left right : BinaryNumber) : Option BinaryNumber :=
  let (leftTop, leftBottom) := left.ratio
  let (rightTop, rightBottom) := right.ratio
  format.round (leftTop * rightBottom) (leftBottom * rightTop)

end BinaryFormat

end MaterialGraph.Decimal
