import MaterialGraph.Decimal.Shortest

/-!
How the shortest digits of a number are laid out: positionally for exponents in a range, and with
a power of ten outside it.
-/

set_option autoImplicit false

namespace MaterialGraph.Decimal

/-- Numbers with a decimal exponent from `lowest` to `highest` are written positionally, with at
least one fraction digit. -/
structure Layout where
  lowest : Int
  highest : Int
  positive : ExponentSign
  tie : DecimalTie
deriving DecidableEq, Repr

namespace Layout

def positional (negative : Bool) (number : Scientific) : Numeral :=
  if 0 ≤ number.exponent then
    let count := number.exponent.toNat + 1
    let whole := number.digits.take count
    let fraction := number.digits.drop count
    ⟨negative, whole ++ List.replicate (count - whole.length) .zero,
      if fraction.isEmpty then [.zero] else fraction, none⟩
  else
    ⟨negative, [.zero], List.replicate ((-number.exponent).toNat - 1) .zero ++ number.digits, none⟩

def withPower (layout : Layout) (negative : Bool) (number : Scientific) : Numeral :=
  ⟨negative, number.digits.take 1, number.digits.drop 1,
    some ⟨if number.exponent < 0 then .minus else layout.positive,
      digitsOfNat number.exponent.natAbs⟩⟩

def numeral (layout : Layout) (number : Single) : Numeral :=
  let digits := shortest layout.tie number.magnitude
  if layout.lowest ≤ digits.exponent ∧ digits.exponent ≤ layout.highest then
    positional number.isNegative digits
  else layout.withPower number.isNegative digits

end Layout

end MaterialGraph.Decimal
