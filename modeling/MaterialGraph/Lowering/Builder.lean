import MaterialGraph.Callable.Basic
import MaterialGraph.Compile.Error

/-!
The state of lowering: the expressions made so far, and which of them stand for what. A node is
lowered once, a slot of a node that has several values once for each slot, and the default of an
input once.
-/

set_option autoImplicit false

namespace MaterialGraph.Lowering

structure Builder where
  exprs : ExprList
  /-- The expression of each lowered node. -/
  nodes : Table NodeId ExprId
  /-- The expressions of output slots that are parts of their node's value. -/
  projections : Table (NodeId × SlotId) ExprId
  /-- The expressions of input slots that take their defaults. -/
  literals : Table (NodeId × SlotId) ExprId

/-- A builder that knows no node yet, over expressions that exist already. -/
def Builder.ofExprs (exprs : ExprList) : Builder := ⟨exprs, [], [], []⟩

/-- Lowering may fail; the expressions made before stay. -/
abbrev Lower := EStateM LoweringError Builder

/-- Lowering steps that concern the expressions alone. -/
abbrev LowerExprs := EStateM LoweringError ExprList

def push (kind : ExprKind) (type : Option ValueType) : Lower ExprId := fun builder =>
  .ok builder.exprs.length { builder with exprs := builder.exprs.push kind type }

def addUse (id : ExprId) : Lower Unit :=
  modify fun builder => { builder with exprs := builder.exprs.addUse id }

/-- Runs steps on the expressions, with what is known about nodes left alone. -/
def onExprs {Value : Type} (steps : LowerExprs Value) : Lower Value := fun builder =>
  match steps builder.exprs with
  | .ok value exprs => .ok value { builder with exprs }
  | .error error exprs => .error error { builder with exprs }

/-- Runs steps that start without knowledge of any node, and forgets what they learn. -/
def apart {Value : Type} (steps : Lower Value) : LowerExprs Value := fun exprs =>
  match steps (Builder.ofExprs exprs) with
  | .ok value builder => .ok value builder.exprs
  | .error error builder => .error error builder.exprs

end MaterialGraph.Lowering
