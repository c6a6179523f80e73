import MaterialGraph.Graph.Node

/-!
Graphs: nodes in the order in which they were first added, links, and the roots that are
evaluated.
-/

set_option autoImplicit false

namespace MaterialGraph

/-- A link from an output slot of a producer to an input slot of a consumer. -/
structure Link where
  startNode : NodeId
  startSlot : SlotId
  endNode : NodeId
  endSlot : SlotId
deriving DecidableEq, Repr

namespace Link

def touches (link : Link) (id : NodeId) : Bool := link.startNode = id || link.endNode = id

def label (link : Link) : String :=
  nodeLabel link.startNode ++ ":" ++ toString link.startSlot.toNat ++ " -> " ++
    nodeLabel link.endNode ++ ":" ++ toString link.endSlot.toNat

def binding (link : Link) : Binding := ⟨link.startNode, link.startSlot⟩

end Link

structure Graph (Target : Type) where
  name : String
  nodes : List (Node Target)
  links : List Link
  roots : List NodeId
deriving DecidableEq

namespace Graph

variable {Target : Type}

def untitled : String := "Untitled"

def empty (name : String) : Graph Target := ⟨name, [], [], []⟩

def ids (graph : Graph Target) : List NodeId := graph.nodes.map Node.id

def node? (graph : Graph Target) (id : NodeId) : Option (Node Target) :=
  graph.nodes.find? fun node => node.id = id

def contains (graph : Graph Target) (id : NodeId) : Bool := (graph.node? id).isSome

/-- Puts a node in the place of the one with its identifier, or at the end. -/
def putNode (node : Node Target) : List (Node Target) → List (Node Target)
  | [] => [node]
  | first :: rest => if first.id = node.id then node :: rest else first :: putNode node rest

def insert (graph : Graph Target) (node : Node Target) : Graph Target :=
  { graph with nodes := putNode node graph.nodes }

/-- Marks an identifier as a root, once. -/
def markRoot (graph : Graph Target) (id : NodeId) : Graph Target :=
  if graph.roots.contains id then graph else { graph with roots := graph.roots ++ [id] }

def insertRoot (graph : Graph Target) (node : Node Target) : Graph Target :=
  (graph.insert node).markRoot node.id

def connect (graph : Graph Target) (link : Link) : Graph Target :=
  { graph with links := graph.links ++ [link] }

/-- Removes a node with its links and its mark as a root. -/
def remove (graph : Graph Target) (id : NodeId) : Graph Target :=
  { graph with
    nodes := graph.nodes.filter fun node => node.id ≠ id
    links := graph.links.filter fun link => !link.touches id
    roots := graph.roots.filter fun root => root ≠ id }

def rename (graph : Graph Target) (name : String) : Graph Target := { graph with name }

/-- Changes the first node with an identifier. -/
def updateNode (id : NodeId) (change : Node Target → Node Target) (nodes : List (Node Target)) :
    List (Node Target) := updateFirst Node.id id change nodes

end Graph

end MaterialGraph
