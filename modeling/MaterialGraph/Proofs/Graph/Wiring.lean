import MaterialGraph.Proofs.Graph.Layout
import MaterialGraph.Proofs.Graph.Path

/-!
What wiring leaves behind. Nodes change in nothing but their bindings, every binding comes from an
accepted link and names an output slot that exists, and accepted links join nodes that exist.
-/

set_option autoImplicit false

namespace MaterialGraph

variable {Target : Type}

namespace Graph

theorem mem_of_node? {graph : Graph Target} {id : NodeId} {node : Node Target}
    (found : graph.node? id = some node) : node ∈ graph.nodes ∧ node.id = id :=
  ⟨List.mem_of_find?_eq_some found, by simpa using List.find?_some found⟩

theorem contains_iff {graph : Graph Target} {id : NodeId} :
    graph.contains id = true ↔ ∃ node, graph.node? id = some node := by
  simp [contains, Option.isSome_iff_exists]

theorem node?_map_unbind {left right : Graph Target}
    (same : left.nodes.map Node.unbind = right.nodes.map Node.unbind) (id : NodeId) :
    (left.node? id).map Node.unbind = (right.node? id).map Node.unbind := by
  have through : ∀ graph : Graph Target, (graph.node? id).map Node.unbind =
      (graph.nodes.map Node.unbind).find? fun node => node.id = id := by
    intro graph
    rw [List.find?_map]
    rfl
  rw [through, through, same]

theorem ids_of_map_unbind {left right : Graph Target}
    (same : left.nodes.map Node.unbind = right.nodes.map Node.unbind) : left.ids = right.ids := by
  have through : ∀ graph : Graph Target, graph.ids = (graph.nodes.map Node.unbind).map Node.id := by
    intro graph
    rw [List.map_map]
    rfl
  rw [through, through, same]

end Graph

namespace Wired

/-- A graph after some of its links were wired. -/
structure Wires (graph : Graph Target) (wired : Wired Target) : Prop where
  nodes : wired.graph.nodes.map Node.unbind = graph.nodes.map Node.unbind
  leads : ∀ node ∈ wired.graph.nodes, ∀ input ∈ node.inputs, ∀ binding,
    input.binding = some binding → wired.Leads binding.node node.id
  feeds : ∀ node ∈ wired.graph.nodes, ∀ input ∈ node.inputs, ∀ binding,
    input.binding = some binding →
      ∃ producer output, graph.node? binding.node = some producer ∧
        producer.output? binding.output = some output
  present : ∀ link ∈ wired.accepted,
    graph.contains link.startNode = true ∧ graph.contains link.endNode = true

theorem Leads.accept {wired : Wired Target} {producer consumer : NodeId}
    (leads : wired.Leads producer consumer) (link : Link) :
    Leads { wired with accepted := wired.accepted ++ [link] } producer consumer := by
  rcases leads with ⟨old, accepted, ends⟩
  exact ⟨old, List.mem_append_left _ accepted, ends⟩

theorem exists_node_of_feeds {wired : Wired Target}
    (present : ∀ {producer consumer}, wired.Leads producer consumer →
      ∃ node, wired.node? producer = some node)
    {roots : List NodeId} {id : NodeId} (feeds : wired.Feeds roots id) :
    ∃ node, wired.node? id = some node := by
  obtain ⟨root, _, known, path⟩ := feeds
  rcases path.cases_head with rfl | ⟨next, leads, _⟩
  · exact Graph.contains_iff.1 known
  · exact present leads

namespace Wires

variable {graph : Graph Target} {wired : Wired Target}

theorem original (wires : Wires graph wired) {id : NodeId} {node : Node Target}
    (found : wired.node? id = some node) :
    ∃ old, graph.node? id = some old ∧ old.unbind = node.unbind := by
  have same := Graph.node?_map_unbind wires.nodes id
  unfold Wired.node? at found
  rw [found] at same
  obtain ⟨old, oldFound, equal⟩ := Option.map_eq_some_iff.1 same.symm
  exact ⟨old, oldFound, equal⟩

theorem exists_kind (wires : Wires graph wired) {id : NodeId} {node : Node Target}
    (found : wired.node? id = some node) : ∃ old ∈ graph.nodes, old.kind = node.kind := by
  obtain ⟨old, oldFound, same⟩ := wires.original found
  exact ⟨old, (Graph.mem_of_node? oldFound).1, congrArg (fun node => node.kind) same⟩

theorem wiredNode (wires : Wires graph wired) {id : NodeId} {old : Node Target}
    (found : graph.node? id = some old) :
    ∃ node, wired.node? id = some node ∧ old.unbind = node.unbind := by
  have same := Graph.node?_map_unbind wires.nodes id
  rw [found] at same
  obtain ⟨node, nodeFound, equal⟩ := Option.map_eq_some_iff.1 same
  exact ⟨node, nodeFound, equal.symm⟩

theorem contains_eq (wires : Wires graph wired) (id : NodeId) :
    wired.graph.contains id = graph.contains id := by
  have same := congrArg Option.isSome (Graph.node?_map_unbind wires.nodes id)
  simpa [Graph.contains] using same

theorem exists_producer (wires : Wires graph wired) {producer consumer : NodeId}
    (leads : wired.Leads producer consumer) : ∃ node, wired.node? producer = some node := by
  obtain ⟨link, accepted, rfl, _⟩ := leads
  have known := (wires.present link accepted).1
  rw [← wires.contains_eq] at known
  exact Graph.contains_iff.1 known

theorem present_accept (wires : Wires graph wired) {link : Link}
    (start : ∃ node, wired.graph.node? link.startNode = some node)
    (finish : ∃ node, wired.graph.node? link.endNode = some node) :
    ∀ other ∈ wired.accepted ++ [link],
      graph.contains other.startNode = true ∧ graph.contains other.endNode = true := by
  intro other accepted
  rcases List.mem_append.1 accepted with old | new
  · exact wires.present other old
  · rw [List.mem_singleton.1 new, ← wires.contains_eq, ← wires.contains_eq]
    exact ⟨Graph.contains_iff.2 start, Graph.contains_iff.2 finish⟩

theorem ids_eq (wires : Wires graph wired) : wired.graph.ids = graph.ids :=
  Graph.ids_of_map_unbind wires.nodes

theorem bare (graph : Graph Target) : Wires graph (Wired.bare graph) where
  nodes := by
    have twice : ∀ node : Node Target, node.unbind.unbind = node.unbind := by
      intro node
      simp [Node.unbind]
    simp [Wired.bare, Function.comp_def, twice]
  leads := by
    intro node member input inputMember binding bound
    obtain ⟨old, _, rfl⟩ := List.mem_map.1 member
    obtain ⟨slot, _, rfl⟩ := List.mem_map.1 inputMember
    cases bound
  feeds := by
    intro node member input inputMember binding bound
    obtain ⟨old, _, rfl⟩ := List.mem_map.1 member
    obtain ⟨slot, _, rfl⟩ := List.mem_map.1 inputMember
    cases bound
  present := by simp [Wired.bare]

/-- What a link that is bound finds: an output slot at its start, an unbound input at its end. -/
theorem bindLink_eq_ok {link : Link} {before after : Graph Target}
    (bound : bindLink before link = .ok after) :
    (∃ producer output, before.node? link.startNode = some producer ∧
      producer.output? link.startSlot = some output) ∧
    (∃ consumer input, before.node? link.endNode = some consumer ∧
      consumer.input? link.endSlot = some input ∧ input.binding = none) ∧
    after = { before with
      nodes := Graph.updateNode link.endNode (fun node => node.bind link.endSlot link.binding)
        before.nodes } := by
  unfold bindLink at bound
  split at bound
  · cases bound
  rename_i producer foundProducer
  split at bound
  · cases bound
  rename_i output foundOutput
  split at bound
  · cases bound
  rename_i consumer foundConsumer
  split at bound
  · cases bound
  rename_i input foundInput
  split at bound
  · cases bound
  rename_i unbound
  cases bound
  exact ⟨⟨producer, output, foundProducer, foundOutput⟩,
    ⟨consumer, input, foundConsumer, foundInput, unbound⟩, rfl⟩

/-- The node that a link is bound to keeps its bindings and gains one. -/
theorem addLink_binds (wires : Wires graph wired) {link : Link} {after : Graph Target}
    (bound : bindLink wired.graph link = .ok after) :
    Wires graph { wired with graph := after, accepted := wired.accepted ++ [link] } := by
  obtain ⟨⟨producer, output, foundProducer, foundOutput⟩,
    ⟨consumer, input, foundConsumer, _, _⟩, rfl⟩ := bindLink_eq_ok bound
  refine ⟨?_, ?_, ?_, wires.present_accept ⟨producer, foundProducer⟩ ⟨consumer, foundConsumer⟩⟩
  · exact (map_updateFirst (fun node => node.unbind_bind _ _) _).trans wires.nodes
  · intro node member slot slotMember binding isBound
    rcases mem_updateFirst member with old | ⟨old, oldMember, oldId, rfl⟩
    · exact (wires.leads node old slot slotMember binding isBound).accept link
    · rcases mem_updateFirst slotMember with kept | ⟨bare, bareMember, _, rfl⟩
      · exact (wires.leads old oldMember slot kept binding isBound).accept link
      · cases isBound
        exact ⟨link, List.mem_append_right _ List.mem_cons_self, rfl, oldId.symm⟩
  · intro node member slot slotMember binding isBound
    rcases mem_updateFirst member with old | ⟨old, oldMember, oldId, rfl⟩
    · exact wires.feeds node old slot slotMember binding isBound
    · rcases mem_updateFirst slotMember with kept | ⟨bare, bareMember, _, rfl⟩
      · exact wires.feeds old oldMember slot kept binding isBound
      · cases isBound
        obtain ⟨made, foundMade, same⟩ := wires.original foundProducer
        have outputs : made.outputs = producer.outputs :=
          congrArg (fun node => node.outputs) same
        refine ⟨made, output, foundMade, ?_⟩
        unfold Node.output?
        rw [outputs]
        exact foundOutput

variable [CallSite Target]

theorem addLink_keeps (wires : Wires graph wired) {link : Link}
    (touches : touchesUnresolved wired.graph link = true) :
    Wires graph { wired with accepted := wired.accepted ++ [link] } := by
  refine ⟨wires.nodes, ?_, wires.feeds, ?_⟩
  · intro node member slot slotMember binding isBound
    exact (wires.leads node member slot slotMember binding isBound).accept link
  · unfold touchesUnresolved at touches
    split at touches
    · rename_i producer consumer foundProducer foundConsumer
      exact wires.present_accept ⟨producer, foundProducer⟩ ⟨consumer, foundConsumer⟩
    · cases touches

theorem addLinkUnder {policy : LinkPolicy} {link : Link} {next : Wired Target}
    (wires : Wires graph wired) (added : wired.addLinkUnder policy link = .ok next) :
    Wires graph next := by
  unfold Wired.addLinkUnder at added
  split at added
  · rename_i taken
    cases added
    unfold addLink at taken
    split at taken
    · rename_i touches
      cases taken
      exact wires.addLink_keeps touches
    · split at taken
      · rename_i after bound
        cases taken
        exact wires.addLink_binds bound
      · cases taken
  · cases added
  · cases added
    exact ⟨wires.nodes, wires.leads, wires.feeds, wires.present⟩

end Wires

end Wired

theorem Graph.wires_of_wire [CallSite Target] {graph : Graph Target} {policy : LinkPolicy}
    {wired : Wired Target} (wire : graph.wire policy = .ok wired) : Wired.Wires graph wired :=
  foldlM_run (fun _ state => Wired.Wires graph state)
    (fun _ _ _ _ wires added => wires.addLinkUnder added) [] (Wired.Wires.bare graph) wire

end MaterialGraph
