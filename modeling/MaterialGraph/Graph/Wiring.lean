import MaterialGraph.Graph.Basic

/-!
Wiring turns links into bindings. Links are taken in order, and the first one that fits an input
slot feeds it. A link that touches an unresolved call binds nothing, for such a node has no slots,
but still leads from its producer to its consumer.
-/

set_option autoImplicit false

namespace MaterialGraph

/-- What happens to links that do not fit. -/
inductive LinkPolicy where
  /-- They are dropped. -/
  | lenient
  /-- The first of them is an error. -/
  | strict
deriving DecidableEq, Repr, Inhabited

inductive LinkFault where
  | missingNode (link : Link) (node : NodeId)
  | missingOutput (link : Link)
  | missingInput (link : Link)
  | alreadyBound (link : Link) (existing : Binding)
deriving DecidableEq, Repr

namespace LinkFault

def link : LinkFault → Link
  | missingNode link _ => link
  | missingOutput link => link
  | missingInput link => link
  | alreadyBound link _ => link

def message : LinkFault → String
  | missingNode link node =>
      "Link " ++ link.label ++ " references missing node " ++ nodeLabel node
  | missingOutput link => "Link " ++ link.label ++ " starts at missing output slot"
  | missingInput link => "Link " ++ link.label ++ " ends at missing input slot"
  | alreadyBound link existing =>
      "Link " ++ link.label ++ " targets an input already fed by " ++ nodeLabel existing.node ++
        ":" ++ toString existing.output.toNat

end LinkFault

/-- A graph with its bindings, the links that were accepted and those that were dropped. -/
structure Wired (Target : Type) where
  graph : Graph Target
  accepted : List Link
  dropped : List LinkFault

namespace Wired

variable {Target : Type}

def node? (wired : Wired Target) (id : NodeId) : Option (Node Target) := wired.graph.node? id

/-- Producers of a node, one for each accepted link. -/
def incoming (wired : Wired Target) (id : NodeId) : List NodeId :=
  (wired.accepted.filter fun link => link.endNode = id).map Link.startNode

/-- Consumers of a node, one for each accepted link. -/
def outgoing (wired : Wired Target) (id : NodeId) : List NodeId :=
  (wired.accepted.filter fun link => link.startNode = id).map Link.endNode

def binding? (wired : Wired Target) (id : NodeId) (slot : SlotId) : Option Binding :=
  match wired.node? id with
  | none => none
  | some node =>
      match node.input? slot with
      | none => none
      | some input => input.binding

def bare (graph : Graph Target) : Wired Target :=
  ⟨{ graph with nodes := graph.nodes.map Node.unbind }, [], []⟩

variable [CallSite Target]

/-- Whether both ends are nodes and one of them is an unresolved call. -/
def touchesUnresolved (graph : Graph Target) (link : Link) : Bool :=
  match graph.node? link.startNode, graph.node? link.endNode with
  | some producer, some consumer =>
      producer.kind.isUnresolvedCall || consumer.kind.isUnresolvedCall
  | _, _ => false

/-- Binds the input slot that a link ends at, or says why it cannot. -/
def bindLink (graph : Graph Target) (link : Link) : Except LinkFault (Graph Target) :=
  match graph.node? link.startNode with
  | none => .error (.missingNode link link.startNode)
  | some producer =>
      match producer.output? link.startSlot with
      | none => .error (.missingOutput link)
      | some _ =>
          match graph.node? link.endNode with
          | none => .error (.missingNode link link.endNode)
          | some consumer =>
              match consumer.input? link.endSlot with
              | none => .error (.missingInput link)
              | some input =>
                  match input.binding with
                  | some existing => .error (.alreadyBound link existing)
                  | none =>
                      .ok { graph with
                        nodes := Graph.updateNode link.endNode
                          (fun node => node.bind link.endSlot link.binding) graph.nodes }

def addLink (wired : Wired Target) (link : Link) : Except LinkFault (Wired Target) :=
  if touchesUnresolved wired.graph link then
    .ok { wired with accepted := wired.accepted ++ [link] }
  else
    match bindLink wired.graph link with
    | .ok graph => .ok { wired with graph, accepted := wired.accepted ++ [link] }
    | .error fault => .error fault

def addLinkUnder (policy : LinkPolicy) (wired : Wired Target) (link : Link) :
    Except LinkFault (Wired Target) :=
  match wired.addLink link, policy with
  | .ok next, _ => .ok next
  | .error fault, .strict => .error fault
  | .error fault, .lenient => .ok { wired with dropped := wired.dropped ++ [fault] }

end Wired

/-- Wires all links of a graph, in order. -/
def Graph.wire {Target : Type} [CallSite Target] (graph : Graph Target) (policy : LinkPolicy) :
    Except LinkFault (Wired Target) :=
  graph.links.foldlM (Wired.addLinkUnder policy) (Wired.bare graph)

end MaterialGraph
