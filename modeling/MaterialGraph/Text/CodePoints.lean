/-!
Sets of code points, given by their boundaries: membership changes at each of them, starting
outside.
-/

set_option autoImplicit false

namespace MaterialGraph.Text

/-- Boundaries in ascending order. -/
structure CodePoints where
  boundaries : List Nat
deriving DecidableEq, Repr

namespace CodePoints

/-- Whether a number lies inside, given whether the space before the first boundary does. -/
def holds (inside : Bool) (number : Nat) : List Nat → Bool
  | [] => inside
  | boundary :: rest => if number < boundary then inside else holds (!inside) number rest

def contains (set : CodePoints) (char : Char) : Bool := holds false char.toNat set.boundaries

end CodePoints

def hexDigit? (char : Char) : Option Nat :=
  if char.isDigit then some (char.toNat - 48)
  else if 'a' ≤ char ∧ char ≤ 'f' then some (char.toNat - 87)
  else if 'A' ≤ char ∧ char ≤ 'F' then some (char.toNat - 55)
  else none

/-- The hexadecimal numbers in a text, with anything else between them. -/
def hexNumbers (current : Option Nat) : List Char → List Nat
  | [] => current.toList
  | char :: rest =>
      match hexDigit? char with
      | some digit => hexNumbers (some (16 * current.getD 0 + digit)) rest
      | none => current.toList ++ hexNumbers none rest

namespace CodePoints

/-- The set whose boundaries are listed in a text, in hexadecimal. -/
def ofText (text : String) : CodePoints := ⟨hexNumbers none text.toList⟩

end CodePoints

example : (CodePoints.ofText "30 3a").contains '0' = true := by decide
example : (CodePoints.ofText "30 3a").contains ':' = false := by decide

end MaterialGraph.Text
