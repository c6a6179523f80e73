import MaterialGraph.Graph.Basic

/-!
Stored graphs. An entry describes a node by its kind; calls refer to the graphs they call by
library path.
-/

set_option autoImplicit false

namespace MaterialGraph

/-- A default that an entry gives an input slot. -/
structure Override where
  slot : SlotId
  value : Literal
deriving DecidableEq, Repr

structure Entry where
  id : NodeId
  locked : Bool
  /-- The name, if it is not the one of the kind. -/
  name : Option String
  kind : Kind String
  defaults : List Override
deriving DecidableEq, Repr

structure Description where
  name : Option String
  nodes : List Entry
  links : List Link
deriving DecidableEq, Repr

namespace Description

/-- The paths of the graphs that are called, in order and with repetitions. -/
def callPaths (description : Description) : List String :=
  description.nodes.filterMap fun entry =>
    match entry.kind with
    | .call path => some path
    | _ => none

end Description

inductive DescriptionError where
  | duplicateNode (node : NodeId)
  /-- A default is given to a slot that the node lacks. -/
  | unknownInput (node : NodeId) (slot : SlotId)
  | unreadable
deriving DecidableEq, Repr

namespace DescriptionError

def message : DescriptionError → String
  | duplicateNode node => "Duplicate node ID " ++ nodeLabel node
  | unknownInput node slot =>
      "Node " ++ nodeLabel node ++ " has no input slot " ++ toString slot.toNat
  | unreadable => "Invalid graph description:"

end DescriptionError

end MaterialGraph
