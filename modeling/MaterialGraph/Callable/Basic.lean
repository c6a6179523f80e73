import MaterialGraph.Digest.Sha256
import MaterialGraph.Graph.Schedule
import MaterialGraph.Graph.Typing

/-!
Graphs used as functions. A callable holds its wired and scheduled body, the types of its nodes,
and its formal ports; the call nodes of a body hold callables in turn.
-/

set_option autoImplicit false

namespace MaterialGraph

/-- A formal input or output: its slot on call nodes and the placeholder node inside. -/
structure Formal where
  index : SlotId
  name : String
  node : NodeId
  type : ValueType
  default : Option Literal
deriving DecidableEq, Repr

/-- What a call node calls: a loaded graph, or a path with the reason why it did not load. -/
inductive CallTarget (Callee : Type) where
  | resolved (callee : Callee)
  | unresolved (path reason : String)

inductive Callable where
  | mk (name path : String) (body : Wired (CallTarget Callable)) (schedule : Schedule)
      (types : TypeTable) (inputs outputs : List Formal) (digest : Digest)

namespace Callable

def name : Callable → String
  | mk name _ _ _ _ _ _ _ => name

def path : Callable → String
  | mk _ path _ _ _ _ _ _ => path

def body : Callable → Wired (CallTarget Callable)
  | mk _ _ body _ _ _ _ _ => body

def schedule : Callable → Schedule
  | mk _ _ _ schedule _ _ _ _ => schedule

def types : Callable → TypeTable
  | mk _ _ _ _ types _ _ _ => types

def inputs : Callable → List Formal
  | mk _ _ _ _ _ inputs _ _ => inputs

def outputs : Callable → List Formal
  | mk _ _ _ _ _ _ outputs _ => outputs

def digest : Callable → Digest
  | mk _ _ _ _ _ _ _ digest => digest

end Callable

namespace Formal

def inputSlot (formal : Formal) : InputSlot :=
  match formal.default with
  | some value => .withDefault formal.index formal.name (.single formal.type) value
  | none => .mandatory formal.index formal.name (.single formal.type)

def outputSlot (formal : Formal) : OutputSlot := ⟨formal.index, formal.name, some formal.type⟩

end Formal

instance : CallSite (CallTarget Callable) where
  path
    | .resolved callee => callee.path
    | .unresolved path _ => path
  inputs
    | .resolved callee => callee.inputs.map Formal.inputSlot
    | .unresolved _ _ => []
  outputs
    | .resolved callee => callee.outputs.map Formal.outputSlot
    | .unresolved _ _ => []
  isUnresolved
    | .resolved _ => false
    | .unresolved _ _ => true

abbrev MaterialNode := Node (CallTarget Callable)

abbrev Material := Graph (CallTarget Callable)

abbrev WiredMaterial := Wired (CallTarget Callable)

mutual

/-- How deep calls are nested in a callable, itself included. -/
def Callable.depth : Callable → Nat
  | .mk _ _ body _ _ _ _ _ => wiredDepth body + 1

def wiredDepth : Wired (CallTarget Callable) → Nat
  | ⟨graph, _, _⟩ => graphDepth graph

def graphDepth : Graph (CallTarget Callable) → Nat
  | ⟨_, nodes, _, _⟩ => nodesDepth nodes

def nodesDepth : List (Node (CallTarget Callable)) → Nat
  | [] => 0
  | node :: rest => max (nodeDepth node) (nodesDepth rest)

def nodeDepth : Node (CallTarget Callable) → Nat
  | ⟨_, _, kind, _, _⟩ => kindDepth kind

def kindDepth : Kind (CallTarget Callable) → Nat
  | .call target => targetDepth target
  | _ => 0

def targetDepth : CallTarget Callable → Nat
  | .resolved callee => callee.depth
  | .unresolved _ _ => 0

end

end MaterialGraph
