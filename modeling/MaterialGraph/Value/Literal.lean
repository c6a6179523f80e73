import MaterialGraph.Decimal.Layout
import MaterialGraph.Value.Type

/-!
Literal values: one to four floats.
-/

set_option autoImplicit false

namespace MaterialGraph

open Decimal

inductive Literal where
  | scalar (x : Single)
  | vec2 (x y : Single)
  | vec3 (x y z : Single)
  | vec4 (x y z w : Single)
deriving DecidableEq, Repr

namespace Literal

def type : Literal → ValueType
  | scalar _ => .scalar
  | vec2 _ _ => .vec2
  | vec3 _ _ _ => .vec3
  | vec4 _ _ _ _ => .vec4

def lanes : Literal → List Single
  | scalar x => [x]
  | vec2 x y => [x, y]
  | vec3 x y z => [x, y, z]
  | vec4 x y z w => [x, y, z, w]

theorem lanes_length (literal : Literal) :
    literal.type.lanes? = some literal.lanes.length := by
  cases literal <;> rfl

/-- The literal of a type with given lanes, if their number fits. -/
def ofLanes? : ValueType → List Single → Option Literal
  | .scalar, [x] => some (scalar x)
  | .vec2, [x, y] => some (vec2 x y)
  | .vec3, [x, y, z] => some (vec3 x y z)
  | .vec4, [x, y, z, w] => some (vec4 x y z w)
  | _, _ => none

theorem ofLanes?_lanes (literal : Literal) :
    ofLanes? literal.type literal.lanes = some literal := by
  cases literal <;> rfl

def zero? : ValueType → Option Literal
  | .scalar => some (scalar .zero)
  | .vec2 => some (vec2 .zero .zero)
  | .vec3 => some (vec3 .zero .zero .zero)
  | .vec4 => some (vec4 .zero .zero .zero .zero)
  | .texture => none

theorem zero?_type {type : ValueType} {literal : Literal} (found : zero? type = some literal) :
    literal.type = type := by
  cases type <;> simp [zero?] at found <;> subst found <;> rfl

/-- Comparison lane by lane as numbers, so both zeros agree. -/
def sameNumbers (left right : Literal) : Bool :=
  left.type = right.type && (left.lanes.zip right.lanes).all fun (a, b) => a.sameNumber b

def isFinite (literal : Literal) : Bool := literal.lanes.all Single.isFinite

end Literal

/-- The numeral of a float in shader code: positional from `10 ^ -4` up to `10 ^ 16`. -/
def Single.codeLayout : Layout := ⟨-4, 15, .absent, .up⟩

def Single.code (number : Single) : String :=
  if number.isFinite then (codeLayout.numeral number).text
  else if number.isNaN then "NaN"
  else if number.isNegative then "-inf"
  else "inf"

end MaterialGraph
