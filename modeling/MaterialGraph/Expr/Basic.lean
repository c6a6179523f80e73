import MaterialGraph.Value.Component
import MaterialGraph.Value.Literal
import MaterialGraph.Value.Operation

/-!
Expressions of a compiled root. They stand in a list, refer to their operands by position, and
count how often they are used, so that a value with several consumers is written once.
-/

set_option autoImplicit false

namespace MaterialGraph

/-- The position of an expression in its list. -/
abbrev ExprId := Nat

inductive ExprKind where
  /-- A literal; with a parameter name, a uniform of that name. -/
  | constant (value : Literal) (parameter : Option String)
  | texture (name : String)
  | sample (image coordinate : ExprId) (level : Option ExprId)
  | swizzle (source : ExprId) (components : List Component)
  | math (op : MathOp) (operands : List ExprId)
  /-- A called graph, with the expressions of its formal outputs. -/
  | call (function : String) (outputs : List ExprId)
  | result (aggregate : ExprId) (index : Nat)
deriving DecidableEq, Repr

namespace ExprKind

def operands : ExprKind → List ExprId
  | constant _ _ => []
  | texture _ => []
  | sample image coordinate level => image :: coordinate :: level.toList
  | swizzle source _ => [source]
  | math _ operands => operands
  | call _ outputs => outputs
  | result aggregate _ => [aggregate]

end ExprKind

/-- An expression with its type, which only calls lack, and a counter of its uses. -/
structure Expr where
  kind : ExprKind
  type : Option ValueType
  useCount : UInt32
deriving DecidableEq, Repr

namespace Expr

def uses (expr : Expr) : Nat := expr.useCount.toNat

/-- Whether the value may be bound to a local. -/
def isComposite (expr : Expr) : Bool :=
  match expr.kind with
  | .sample _ _ _ => true
  | .math _ _ => true
  | _ => false

/-- Name and type of the uniform that a named constant reads. -/
def parameter? (expr : Expr) : Option (String × ValueType) :=
  match expr.kind with
  | .constant value (some name) => some (name, expr.type.getD value.type)
  | _ => none

end Expr

/-- Expressions in the order in which they were made. -/
abbrev ExprList := List Expr

namespace ExprList

def addUse (list : ExprList) (id : ExprId) : ExprList :=
  list.modify id fun expr => { expr with useCount := expr.useCount + 1 }

@[simp] theorem length_addUse (list : ExprList) (id : ExprId) :
    (list.addUse id).length = list.length := by
  simp [addUse]

/-- Appends an expression; each of its operands gains a use. -/
def push (list : ExprList) (kind : ExprKind) (type : Option ValueType) : ExprList :=
  kind.operands.foldl addUse list ++ [⟨kind, type, 0⟩]

theorem length_foldl_addUse (ids : List ExprId) (list : ExprList) :
    (ids.foldl addUse list).length = list.length := by
  induction ids generalizing list with
  | nil => rfl
  | cons id rest induction => rw [List.foldl_cons, induction, length_addUse]

@[simp] theorem length_push (list : ExprList) (kind : ExprKind) (type : Option ValueType) :
    (list.push kind type).length = list.length + 1 := by
  simp [push, length_foldl_addUse]

end ExprList

end MaterialGraph
