import MaterialGraph.Decimal.Numeral
import MaterialGraph.Decimal.Single

/-!
The fewest decimal digits that read back as a given number. For one, two, three, … digits the
number's two neighbours on that decimal grid are tested against the interval of reals that round
to the number; the first grid with a hit wins, and of two hits the nearer.
-/

set_option autoImplicit false

namespace MaterialGraph.Decimal

/-- Which of two equally near decimals is taken. -/
inductive DecimalTie where
  | up
  | toEven
deriving DecidableEq, Repr

/-- Digits `d₀d₁d₂…` and a power: the number `d₀.d₁d₂… * 10 ^ exponent`. -/
structure Scientific where
  digits : List Digit
  exponent : Int
deriving DecidableEq, Repr

/-- The exponent `e` with `10 ^ e ≤ numerator / denominator < 10 ^ (e + 1)`, for quotients of at
least `10 ^ -64`. -/
def decimalExponent (numerator denominator : Nat) : Int :=
  if denominator ≤ numerator then
    ((digitsOfNat (numerator / denominator)).length : Int) - 1
  else
    -(((List.range 65).find? fun shift => denominator ≤ numerator * Nat.pow 10 shift).getD 65 : Int)

/-- The reals that round to `mantissa * 2 ^ exponent` in the 32-bit format, in quarters of the
unit `2 ^ exponent`. -/
structure RoundingInterval where
  low : Nat
  high : Nat
  closed : Bool
  deriving Repr

def roundingInterval (magnitude : BinaryNumber) : RoundingInterval :=
  let gap := if magnitude.mantissa = Nat.pow 2 23 ∧ -149 < magnitude.exponent then 1 else 2
  ⟨4 * magnitude.mantissa - gap, 4 * magnitude.mantissa + 2, magnitude.mantissa % 2 = 0⟩

/-- A decimal `candidate * 10 ^ power` and quarters of a unit, brought to one scale. -/
def onOneScale (unit power : Int) (candidate quarters : Nat) : Nat × Nat :=
  (candidate * Nat.pow 10 power.toNat * Nat.pow 2 (2 - unit).toNat,
    quarters * Nat.pow 2 (unit - 2).toNat * Nat.pow 10 (-power).toNat)

def RoundingInterval.holds (interval : RoundingInterval) (unit power : Int) (candidate : Nat) :
    Bool :=
  let (atLow, low) := onOneScale unit power candidate interval.low
  let (atHigh, high) := onOneScale unit power candidate interval.high
  if interval.closed then low ≤ atLow && atHigh ≤ high else low < atLow && atHigh < high

/-- The decimal of a given number of digits that reads back as the number, if there is one. -/
def decimalWithDigits (tie : DecimalTie) (magnitude : BinaryNumber) (exponent : Int) (count : Nat) :
    Option (Nat × Int) :=
  let power := exponent - (count - 1 : Nat)
  let interval := roundingInterval magnitude
  let (unitScale, value) := onOneScale magnitude.exponent power 1 (4 * magnitude.mantissa)
  let below := value / unitScale
  let rest := value % unitScale
  let belowHolds := interval.holds magnitude.exponent power below
  let aboveHolds := interval.holds magnitude.exponent power (below + 1)
  match belowHolds, aboveHolds with
  | true, true =>
      if 2 * rest < unitScale then some (below, power)
      else if unitScale < 2 * rest then some (below + 1, power)
      else match tie with
        | .up => some (below + 1, power)
        | .toEven => some (if below % 2 = 0 then below else below + 1, power)
  | true, false => some (below, power)
  | false, true => some (below + 1, power)
  | false, false => none

def dropTrailingZeros (digits : List Digit) : List Digit :=
  (digits.reverse.dropWhile (· = Digit.zero)).reverse

/-- The shortest decimal of a finite number's absolute value. Nine digits always suffice. -/
def shortest (tie : DecimalTie) (magnitude : BinaryNumber) : Scientific :=
  if magnitude.mantissa = 0 then ⟨[.zero], 0⟩
  else
    let (numerator, denominator) := magnitude.ratio
    let exponent := decimalExponent numerator denominator
    match (List.range 9).findSome? fun fewer =>
        decimalWithDigits tie magnitude exponent (fewer + 1) with
    | some (candidate, power) =>
        let digits := digitsOfNat candidate
        ⟨dropTrailingZeros digits, power + (digits.length : Int) - 1⟩
    | none => ⟨[.zero], 0⟩

end MaterialGraph.Decimal
