import MaterialGraph.Value.Component
import MaterialGraph.Value.Literal
import MaterialGraph.Value.Operation

/-!
Shader expressions as trees, and their text. Conversions between types, component selections and
the math operations are functions on trees.
-/

set_option autoImplicit false

namespace MaterialGraph.Wgsl

inductive Arithmetic where
  | plus
  | minus
  | times
  | divided
deriving DecidableEq, Repr

def Arithmetic.symbol : Arithmetic → String
  | plus => "+"
  | minus => "-"
  | times => "*"
  | divided => "/"

inductive Code where
  | verbatim (text : String)
  | float (value : Single)
  | uniform (block name : String)
  | texture (name : String)
  /-- A value bound earlier in the same function. -/
  | shared (name : String)
  /-- A texture sampled at a coordinate, at a level of detail if one is given. -/
  | sample (texture coordinate : Code) (level : Option Code)
  | select (source : Code) (lanes : List Lane)
  /-- A value built from parts, or one part repeated. -/
  | construct (type : ValueType) (parts : List Code)
  | arithmetic (operator : Arithmetic) (left right : Code)
  | apply (function : String) (arguments : List Code)
  /-- Parts with nothing between them: what a selection of no known width is written as. -/
  | run (parts : List Code)

def typeName : ValueType → String
  | .scalar => "f32"
  | .vec2 => "vec2<f32>"
  | .vec3 => "vec3<f32>"
  | .vec4 => "vec4<f32>"
  | .texture => "texture_2d<f32>"

/-- The sampler that belongs to a texture. -/
def samplerName (texture : String) : String := texture ++ "_sampler"

namespace Code

mutual

def text : Code → String
  | verbatim given => given
  | float value => value.code
  | uniform block name => block ++ "." ++ name
  | texture name => name
  | shared name => name
  | sample source coordinate none =>
      "textureSample(" ++ text source ++ ", " ++ samplerName (text source) ++ ", " ++
        text coordinate ++ ")"
  | sample source coordinate (some level) =>
      "textureSampleLevel(" ++ text source ++ ", " ++ samplerName (text source) ++ ", " ++
        text coordinate ++ ", " ++ text level ++ ")"
  | select source lanes => text source ++ "." ++ String.ofList (lanes.map Lane.letter)
  | construct type parts => typeName type ++ "(" ++ String.intercalate ", " (texts parts) ++ ")"
  | arithmetic operator left right =>
      "(" ++ text left ++ " " ++ operator.symbol ++ " " ++ text right ++ ")"
  | apply function arguments =>
      function ++ "(" ++ String.intercalate ", " (texts arguments) ++ ")"
  | run parts => String.join (texts parts)

def texts : List Code → List String
  | [] => []
  | code :: rest => text code :: texts rest

end

def nothing : Code := run []

/-- A literal: a float, or a vector built from floats. -/
def literal (value : Literal) : Code :=
  match value with
  | .scalar x => float x
  | value => construct value.type (value.lanes.map float)

/-- Parts as one value: a single part as it is, two to four as a vector. -/
def assemble (parts : List Code) : Code :=
  match ValueType.ofLanes? parts.length with
  | some .scalar => run parts
  | none => run parts
  | some vector => construct vector parts

/-- One component of a source: a fill, or a lane. A scalar is its own first lane. -/
def component (source : Code) (type : ValueType) : Component → Code
  | .zero => float .zero
  | .one => float .one
  | .lane lane => if type = .scalar ∧ lane = .x then source else select source [lane]

/-- Selects or fills components of a value of a given type. A scalar repeated in all components is
written once, and lanes of a vector alone are written as one selection. -/
def swizzle (source : Code) (type : ValueType) (components : List Component) : Code :=
  if type = .scalar ∧ components.all (· = .lane .x) then
    match ValueType.ofLanes? components.length with
    | some .scalar => source
    | none => source
    | some vector => construct vector [source]
  else if type ≠ .scalar ∧ components.all (·.lane?.isSome) then
    select source (components.filterMap Component.lane?)
  else
    match components with
    | [only] => component source type only
    | components => assemble (components.map (component source type))

def convert (code : Code) (source target : ValueType) : Code :=
  if source = target then code else code.swizzle source (Component.cast source target)

/-- The operand at a position, as it is. -/
def raw (operands : List (Code × ValueType)) (position : Nat) : Code :=
  match operands[position]? with
  | some (code, _) => code
  | none => nothing

/-- The operand at a position, converted to the type of the result. -/
def widened (operands : List (Code × ValueType)) (result : ValueType) (position : Nat) : Code :=
  match operands[position]? with
  | some (code, type) => code.convert type result
  | none => nothing

/-- Applies a math operation. The infix operators repeat a scalar operand on their own; the
functions of two operands need both of one type. -/
def math (op : MathOp) (operands : List (Code × ValueType)) (result : ValueType) : Code :=
  match op with
  | .add => arithmetic .plus (raw operands 0) (raw operands 1)
  | .subtract => arithmetic .minus (raw operands 0) (raw operands 1)
  | .multiply => arithmetic .times (raw operands 0) (raw operands 1)
  | .divide => arithmetic .divided (raw operands 0) (raw operands 1)
  | .min => apply "min" [widened operands result 0, widened operands result 1]
  | .max => apply "max" [widened operands result 0, widened operands result 1]
  | .power => apply "pow" [widened operands result 0, widened operands result 1]
  | .lerp => apply "mix" [widened operands result 0, widened operands result 1, raw operands 2]
  | .dot => apply "dot" [raw operands 0, raw operands 1]
  | .sin => apply "sin" [raw operands 0]
  | .cos => apply "cos" [raw operands 0]
  | .abs => apply "abs" [raw operands 0]
  | .normalize => apply "normalize" [raw operands 0]
  | .oneMinus => arithmetic .minus (float .one) (raw operands 0)
  | .saturate => apply "saturate" [raw operands 0]

end Code

end MaterialGraph.Wgsl
