/-!
Decimal numerals as they are written: a sign, whole digits, fraction digits, and a power of ten.
-/

set_option autoImplicit false

namespace MaterialGraph.Decimal

abbrev Digit := Fin 10

namespace Digit

def zero : Digit := ⟨0, by decide⟩

def char (digit : Digit) : Char := Char.ofNat (48 + digit.val)

def ofChar? (char : Char) : Option Digit :=
  let position := char.toNat
  if h : 48 ≤ position ∧ position < 58 then some ⟨position - 48, by omega⟩ else none

end Digit

/-- The number a digit list spells, most significant first. -/
def natOfDigits (digits : List Digit) : Nat :=
  digits.foldl (fun number digit => 10 * number + digit.val) 0

/-- The digits of a number, most significant first; zero has one digit. -/
def digitsOfNat (number : Nat) : List Digit :=
  (Nat.toDigits 10 number).filterMap Digit.ofChar?

inductive ExponentSign where
  | absent
  | plus
  | minus
deriving DecidableEq, Repr

namespace ExponentSign

def chars : ExponentSign → List Char
  | absent => []
  | plus => ['+']
  | minus => ['-']

end ExponentSign

structure PowerOfTen where
  sign : ExponentSign
  digits : List Digit
deriving DecidableEq, Repr

/-- A numeral. No fraction digit means that no point is written. -/
structure Numeral where
  negative : Bool
  whole : List Digit
  fraction : List Digit
  power : Option PowerOfTen
deriving DecidableEq, Repr

namespace Numeral

def ofNat (number : Nat) : Numeral := ⟨false, digitsOfNat number, [], none⟩

def chars (numeral : Numeral) : List Char :=
  (if numeral.negative then ['-'] else []) ++
  numeral.whole.map Digit.char ++
  (if numeral.fraction.isEmpty then [] else '.' :: numeral.fraction.map Digit.char) ++
  (match numeral.power with
    | none => []
    | some power => 'e' :: (power.sign.chars ++ power.digits.map Digit.char))

def text (numeral : Numeral) : String := String.ofList numeral.chars

/-- Whether only whole digits are written. -/
def isWhole (numeral : Numeral) : Bool := numeral.fraction.isEmpty && numeral.power.isNone

end Numeral

end MaterialGraph.Decimal
