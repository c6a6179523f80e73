import MaterialGraph.Decimal.Numeral
import MaterialGraph.Decimal.Single

/-!
The number a numeral stands for. Whole numerals that fit 64 bits are rounded to the 32-bit format
once. All others collect their digits in a 64-bit significand, are scaled by a power of ten in the
64-bit format and are then narrowed; numerals past the 64-bit format are refused.
-/

set_option autoImplicit false

namespace MaterialGraph.Decimal

/-- Digits collected so far: the significand, and the power of ten it is to be scaled by. -/
structure Collected where
  significand : Nat
  power : Int
deriving DecidableEq, Repr

namespace Collected

/-- Whether one more digit still fits the significand. -/
def fits (significand : Nat) (digit : Digit) : Bool := 10 * significand + digit.val < Nat.pow 2 64

/-- Whole digits are collected as long as they fit; each later one raises the power. -/
def whole : List Digit → Collected → Collected
  | [], collected => collected
  | digit :: rest, collected =>
      if fits collected.significand digit then
        whole rest { collected with significand := 10 * collected.significand + digit.val }
      else { collected with power := collected.power + (rest.length + 1 : Nat) }

/-- Fraction digits are collected as long as they fit, each lowering the power; later ones are
dropped. -/
def fraction : List Digit → Collected → Collected
  | [], collected => collected
  | digit :: rest, collected =>
      if fits collected.significand digit then
        fraction rest ⟨10 * collected.significand + digit.val, collected.power - 1⟩
      else collected

end Collected

/-- The largest power of ten, and the largest written one, that is still told apart. -/
def powerLimit : Nat := Nat.pow 2 31 - 1

/-- The largest power of ten that the 64-bit format holds. -/
def largestPower : Nat := 308

/-- The 64-bit value of a power of ten up to the largest. -/
def tenToThe (power : Nat) : BinaryNumber :=
  (BinaryFormat.double.round (Nat.pow 10 power) 1).getD ⟨0, 0⟩

/-- Repeated division by the largest power of ten, each step rounded; zero stays zero. -/
def shrink : Nat → BinaryNumber → Option BinaryNumber
  | 0, number => some number
  | count + 1, number =>
      if number.mantissa = 0 then some number
      else (BinaryFormat.double.div number (tenToThe largestPower)).bind (shrink count)

/-- Scales by a power of ten in the 64-bit format; `none` when the result is too large. A power
below the smallest is first brought into range in steps of the largest. -/
def scale (number : BinaryNumber) (power : Int) : Option BinaryNumber :=
  if 0 ≤ power then
    if power.toNat ≤ largestPower then BinaryFormat.double.mul number (tenToThe power.toNat)
    else if number.mantissa = 0 then some number
    else none
  else
    let steps := (power.natAbs - 1) / largestPower
    (shrink steps number).bind fun smaller =>
      BinaryFormat.double.div smaller (tenToThe (power.natAbs - steps * largestPower))

namespace Numeral

/-- The absolute value in the 64-bit format, for numerals that are not short whole numbers. -/
def double? (numeral : Numeral) : Option BinaryNumber :=
  let collected := Collected.fraction numeral.fraction (Collected.whole numeral.whole ⟨0, 0⟩)
  match BinaryFormat.double.round collected.significand 1 with
  | none => none
  | some significand =>
      match numeral.power with
      | none => scale significand collected.power
      | some ⟨sign, digits⟩ =>
          let written := natOfDigits digits
          if powerLimit < written then
            if collected.significand ≠ 0 ∧ sign ≠ .minus then none else some ⟨0, 0⟩
          else if sign = .minus then scale significand (collected.power - written)
          else scale significand (collected.power + written)

/-- Whether the numeral is a whole number that is kept exactly: up to `2 ^ 64 - 1`, or from
`-2 ^ 63` to `-1`. -/
def isExact (numeral : Numeral) : Bool :=
  numeral.isWhole &&
    (let number := natOfDigits numeral.whole
     if numeral.negative then 0 < number && number ≤ Nat.pow 2 63 else number < Nat.pow 2 64)

/-- The 32-bit number, or `none` when the numeral is out of range. -/
def single? (numeral : Numeral) : Option Single :=
  if numeral.isExact then
    some (Single.ofRatio numeral.negative (natOfDigits numeral.whole) 1)
  else
    match numeral.double? with
    | none => none
    | some value =>
        let (numerator, denominator) := value.ratio
        some (Single.ofRatio numeral.negative numerator denominator)

def word? (numeral : Numeral) : Option UInt32 :=
  if numeral.isWhole && !numeral.negative then
    let number := natOfDigits numeral.whole
    if number < Nat.pow 2 32 then some (UInt32.ofNat number) else none
  else none

end Numeral

end MaterialGraph.Decimal
