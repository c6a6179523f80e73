import MaterialGraph.Value.Type

/-!
The arithmetic and intrinsic operations of math nodes.
-/

set_option autoImplicit false

namespace MaterialGraph

inductive MathOp where
  | add
  | subtract
  | multiply
  | divide
  | min
  | max
  | power
  | lerp
  | dot
  | sin
  | cos
  | abs
  | normalize
  | oneMinus
  | saturate
deriving DecidableEq, Repr

namespace MathOp

def all : List MathOp :=
  [add, subtract, multiply, divide, min, max, power, lerp, dot, sin, cos, abs, normalize,
    oneMinus, saturate]

theorem mem_all (op : MathOp) : op ∈ all := by cases op <;> decide

/-- Names of the operands, in slot order. -/
def operandNames : MathOp → List String
  | add | subtract | multiply | divide | min | max | power | dot => ["A", "B"]
  | lerp => ["A", "B", "T"]
  | sin | cos | abs | normalize | oneMinus | saturate => ["Value"]

def operandTypes : MathOp → TypeSet
  | normalize | dot => .vectors
  | _ => .numeric

def label : MathOp → String
  | add => "Add"
  | subtract => "Subtract"
  | multiply => "Multiply"
  | divide => "Divide"
  | min => "Minimum"
  | max => "Maximum"
  | power => "Power"
  | lerp => "Lerp"
  | dot => "Dot Product"
  | sin => "Sine"
  | cos => "Cosine"
  | abs => "Absolute"
  | normalize => "Normalize"
  | oneMinus => "One Minus"
  | saturate => "Saturate"

def tag : MathOp → String
  | add => "Add"
  | subtract => "Subtract"
  | multiply => "Multiply"
  | divide => "Divide"
  | min => "Min"
  | max => "Max"
  | power => "Power"
  | lerp => "Lerp"
  | dot => "Dot"
  | sin => "Sin"
  | cos => "Cos"
  | abs => "Abs"
  | normalize => "Normalize"
  | oneMinus => "OneMinus"
  | saturate => "Saturate"

def ofTag? (tag : String) : Option MathOp := all.find? fun op => op.tag = tag

theorem ofTag?_tag (op : MathOp) : ofTag? op.tag = some op := by
  cases op <;> decide

def index (op : MathOp) : Nat := all.idxOf op

end MathOp

end MaterialGraph
