import MaterialGraph.Callable.Basic
import MaterialGraph.Description.Basic

/-!
Descriptions and graphs. A node starts with the name and slots of its kind, and its entry may give
it another name and other defaults. Back again, what the kind provides is left out.
-/

set_option autoImplicit false

namespace MaterialGraph

/-- What a library path stands for. -/
abbrev Resolver := String → CallTarget Callable

namespace Entry

/-- Gives a node the defaults of its entry, in order. -/
def applyDefaults (node : MaterialNode) : List Override → Except DescriptionError MaterialNode
  | [] => .ok node
  | override :: rest =>
      match node.input? override.slot with
      | none => .error (.unknownInput node.id override.slot)
      | some _ => applyDefaults (node.withDefault override.slot override.value) rest

def toNode (resolve : Resolver) (entry : Entry) : Except DescriptionError MaterialNode :=
  let node := Node.ofKind entry.id (entry.kind.map resolve)
  applyDefaults (match entry.name with | some name => node.withName name | none => node)
    entry.defaults

/-- Whether the slots of a kind already have a default. -/
def isProvided (template : List InputSlot) (slot : SlotId) (value : Literal) : Bool :=
  template.any fun input =>
    input.id = slot &&
      (match input.default with
        | some provided => provided.sameNumbers value
        | none => false)

/-- The defaults that the kind of a node does not provide. -/
def overrides (node : MaterialNode) : List Override :=
  node.inputs.filterMap fun input =>
    match input.default with
    | none => none
    | some value =>
        if isProvided node.kind.inputs input.id value then none else some ⟨input.id, value⟩

def ofNode (roots : List NodeId) (node : MaterialNode) : Entry :=
  ⟨node.id, roots.contains node.id,
    if node.name = node.kind.label then none else some node.name,
    node.kind.map CallSite.path, overrides node⟩

end Entry

namespace Description

def addEntry (resolve : Resolver) (graph : Material) (entry : Entry) :
    Except DescriptionError Material :=
  if graph.contains entry.id then .error (.duplicateNode entry.id)
  else
    match entry.toNode resolve with
    | .error error => .error error
    | .ok node => .ok (if entry.locked then graph.insertRoot node else graph.insert node)

def toGraph (resolve : Resolver) (description : Description) : Except DescriptionError Material :=
  match description.nodes.foldlM (addEntry resolve)
      (Graph.empty (description.name.getD Graph.untitled)) with
  | .error error => .error error
  | .ok graph => .ok { graph with links := description.links }

def ofGraph (graph : Material) : Description :=
  ⟨some graph.name, graph.nodes.map (Entry.ofNode graph.roots), graph.links⟩

end Description

end MaterialGraph
