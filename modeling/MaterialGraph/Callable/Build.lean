import MaterialGraph.Compile.Error
import MaterialGraph.Digest.Fingerprint

/-!
Turning a graph into a callable. Its function outputs become roots beside its own; whatever feeds
them has to be free of cycles, resolved and well typed. Formal ports are numbered in ascending
order of node identifier, whatever the order in which nodes are stored.
-/

set_option autoImplicit false

namespace MaterialGraph

namespace Wired

/-- The first unresolved call among scheduled nodes, as an error. -/
def unresolvedCall? (wired : WiredMaterial) (order : List NodeId) : Option CompileError :=
  order.findSome? fun id =>
    match wired.node? id with
    | some ⟨_, _, .call (.unresolved path reason), _, _⟩ => some (.unresolvedCall id path reason)
    | _ => none

end Wired

namespace Callable

def isPlaceholder (node : MaterialNode) : Bool :=
  match node.kind with
  | .functionInput _ _ _ => true
  | .functionOutput _ _ => true
  | _ => false

def isOutputPlaceholder (node : MaterialNode) : Bool :=
  match node.kind with
  | .functionOutput _ _ => true
  | _ => false

/-- Function inputs and outputs, in ascending order of identifier. -/
def placeholders (graph : Material) : List NodeId :=
  Wired.ascending ((graph.nodes.filter isPlaceholder).map Node.id)

/-- The graph's roots, and the function outputs that are not among them. -/
def roots (graph : Material) : List NodeId :=
  (placeholders graph).foldl
    (fun roots id =>
      match graph.node? id with
      | some node =>
          if isOutputPlaceholder node ∧ !roots.contains id then roots ++ [id] else roots
      | none => roots)
    graph.roots

structure Formals where
  inputs : List Formal
  outputs : List Formal

def addFormal (wired : WiredMaterial) (types : TypeTable) (formals : Formals) (id : NodeId) :
    Except CompileError Formals :=
  match wired.node? id with
  | none => .ok formals
  | some node =>
      match node.kind with
      | .functionInput name type default =>
          let index := formals.inputs.length
          .ok { formals with
            inputs := formals.inputs ++
              [⟨UInt32.ofNat index, name.getD ("arg_" ++ toString index), id, type, default⟩] }
      | .functionOutput name _ =>
          match types.find? (id, 0) with
          | none => .error (.unresolvedOutput id)
          | some type =>
              let index := formals.outputs.length
              .ok { formals with
                outputs := formals.outputs ++
                  [⟨UInt32.ofNat index, name.getD ("out_" ++ toString index), id, type, none⟩] }
      | _ => .ok formals

/-- The callable of a graph stored at a path, or why it is no function. -/
def ofGraph (path : String) (graph : Material) (policy : LinkPolicy) :
    Except CompileError Callable :=
  match graph.wire policy with
  | .error fault => .error (.structural fault)
  | .ok wired =>
      match wired.schedule (roots graph) with
      | .error cycle => .error (.cycle cycle)
      | .ok schedule =>
          match wired.unresolvedCall? schedule.order with
          | some error => .error error
          | none =>
              match Typing.checkAll wired false schedule.order [] with
              | (types, []) =>
                  match (placeholders graph).foldlM (addFormal wired types) ⟨[], []⟩ with
                  | .error error => .error error
                  | .ok formals =>
                      .ok (.mk graph.name path wired schedule types formals.inputs formals.outputs
                        (wired.fingerprint (roots graph)))
              | (_, diagnostics) => .error (.validation diagnostics)

end Callable

end MaterialGraph
