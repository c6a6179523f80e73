import MaterialGraph.Decimal.Reading
import MaterialGraph.Decimal.Layout

/-!
JSON values. Numbers stay numerals, members stay in written order and may repeat, and a string
whose escapes leave half of a surrogate pair has no text.
-/

set_option autoImplicit false

namespace MaterialGraph.Text

open Decimal

inductive Json where
  | null
  | boolean (value : Bool)
  | number (numeral : Numeral)
  | string (text : Option String)
  | array (elements : List Json)
  | object (members : List (Option String × Json))

namespace Json

instance : Inhabited Json := ⟨null⟩

def text (value : String) : Json := string (some value)

def nat (value : Nat) : Json := number (Numeral.ofNat value)

/-- An object from its fields, in order. -/
def record (fields : List (String × Json)) : Json :=
  object (fields.map fun field => (some field.1, field.2))

def optional {Value : Type} (encode : Value → Json) : Option Value → Json
  | none => null
  | some value => encode value

/-- Floats are written positionally between `10 ^ -6` and `10 ^ 13`, and a positive power of ten
carries its sign. -/
def floatLayout : Layout := ⟨-6, 12, .plus, .toEven⟩

/-- A float; one that is not finite has no numeral. -/
def single (value : Single) : Json :=
  if value.isFinite then number (floatLayout.numeral value) else null

mutual

def height : Json → Nat
  | array elements => heightOfElements elements + 1
  | object members => heightOfMembers members + 1
  | _ => 0

def heightOfElements : List Json → Nat
  | [] => 0
  | element :: rest => max (height element) (heightOfElements rest)

def heightOfMembers : List (Option String × Json) → Nat
  | [] => 0
  | (_, value) :: rest => max (height value) (heightOfMembers rest)

end

mutual

/-- Whether every number is in range and every string and key has a text. -/
def isSound : Json → Bool
  | number numeral => numeral.isExact || numeral.double?.isSome
  | string text => text.isSome
  | array elements => areSoundElements elements
  | object members => areSoundMembers members
  | _ => true

def areSoundElements : List Json → Bool
  | [] => true
  | element :: rest => isSound element && areSoundElements rest

def areSoundMembers : List (Option String × Json) → Bool
  | [] => true
  | (key, value) :: rest => key.isSome && isSound value && areSoundMembers rest

end

end Json

end MaterialGraph.Text
