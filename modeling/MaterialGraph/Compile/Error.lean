import MaterialGraph.Expr.Parameters
import MaterialGraph.Graph.Schedule
import MaterialGraph.Graph.Typing

/-!
Why a graph, or one of its roots, does not compile.
-/

set_option autoImplicit false

namespace MaterialGraph

inductive LoweringError where
  | missingNode (node : NodeId)
  | noValue (node : NodeId)
  | missingSlot (node : NodeId) (slot : SlotId)
  /-- A required input has neither a producer nor a default. -/
  | missingOperand (node : NodeId) (slot : SlotId)
  | unresolvedType (node : NodeId) (slot : SlotId)
  | unresolvedCall (node : NodeId) (path : String)
  /-- The node's value is needed for itself. -/
  | circular (node : NodeId)
deriving DecidableEq, Repr

namespace LoweringError

def message : LoweringError → String
  | missingNode node => "Node " ++ nodeLabel node ++ " not found"
  | noValue node => "Node " ++ nodeLabel node ++ " has no value"
  | missingSlot node slot =>
      "Node " ++ nodeLabel node ++ " has no input slot " ++ toString slot.toNat
  | missingOperand node slot =>
      "Node " ++ nodeLabel node ++ " has no operand for slot " ++ toString slot.toNat
  | unresolvedType node slot =>
      "Type of node " ++ nodeLabel node ++ " output " ++ toString slot.toNat ++ " is unresolved"
  | unresolvedCall node path =>
      "Node " ++ nodeLabel node ++ " calls `" ++ path ++ "`, which did not load"
  | circular node => "Node " ++ nodeLabel node ++ " feeds itself"

end LoweringError

inductive CompileError where
  /-- A link does not fit, under the strict policy. -/
  | structural (fault : LinkFault)
  | cycle (cycle : Cycle)
  | unknownRoot (root : NodeId)
  /-- A node that feeds the root calls a graph that did not load. -/
  | unresolvedCall (node : NodeId) (path reason : String)
  | validation (diagnostics : List Diagnostic)
  /-- A formal output without a type. -/
  | unresolvedOutput (node : NodeId)
  | lowering (error : LoweringError)
  /-- A parameter is used at two types, within the root or across roots. -/
  | parameter (conflict : ParameterConflict)
deriving DecidableEq, Repr

namespace CompileError

def message : CompileError → String
  | structural fault => fault.message
  | cycle found => found.message
  | unknownRoot root => "Root " ++ nodeLabel root ++ " is not in the graph"
  | unresolvedCall node path reason =>
      "Node " ++ nodeLabel node ++ " calls `" ++ path ++ "`, which failed to load: " ++ reason
  | validation diagnostics =>
      toString diagnostics.length ++ " node(s) failed validation: " ++
        (match diagnostics with
          | [] => ""
          | first :: _ => first.message)
  | unresolvedOutput node => "Function output " ++ nodeLabel node ++ " has no resolved type"
  | lowering error => "Lowering failed: " ++ error.message
  | parameter conflict => conflict.message

end CompileError

end MaterialGraph
