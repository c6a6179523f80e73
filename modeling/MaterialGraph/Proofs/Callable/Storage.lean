import MaterialGraph.Proofs.Digest.Presentation
import MaterialGraph.Proofs.Graph.Reordering

/-!
Callables of graphs that store the same nodes and roots in another order. The placeholders are
sorted, the roots are the same as a set, and neither scheduling nor checking cares for the order of
storage: so both graphs are functions or neither is, and as functions they have the same formal
ports, the same types and the same digest.
-/

set_option autoImplicit false

namespace MaterialGraph

namespace Wired

theorem SameRecords.of_mirrors {left right : WiredMaterial} {graph : Material}
    (wires : Wires graph left) (mirrored : left.Mirrors right) {roots others : List NodeId}
    (same : ∀ id, id ∈ roots ↔ id ∈ others) : SameRecords left right roots others where
  reachable := by
    intro id
    rw [mem_reachable, mem_reachable, mirrored.feeds_iff same]
  nodes := by
    intro id member
    obtain ⟨node, found⟩ := exists_node_of_feeds wires.exists_producer (mem_reachable.1 member)
    exact ⟨node, node, found, mirrored.nodes id ▸ found, same id, rfl, rfl, rfl⟩

theorem Mirrors.unresolvedCall?_iff {left right : WiredMaterial} (mirrored : left.Mirrors right)
    {order other : List NodeId} (same : ∀ id, id ∈ order ↔ id ∈ other) :
    left.unresolvedCall? order = none ↔ right.unresolvedCall? other = none := by
  rw [unresolvedCall?_eq_none_iff, unresolvedCall?_eq_none_iff]
  simp only [same, mirrored.nodes]

theorem ascending_of_perm {ids others : List NodeId} (distinct : ids.Nodup)
    (order : ids.Perm others) : ascending ids = ascending others := by
  apply eq_of_ascending (pairwise_ascending distinct)
    (pairwise_ascending (order.nodup_iff.1 distinct))
  intro id
  rw [mem_ascending, mem_ascending, order.mem_iff]

end Wired

namespace Callable

theorem ids_filter_nodup {graph : Material} (distinct : graph.ids.Nodup)
    (keep : MaterialNode → Bool) : ((graph.nodes.filter keep).map Node.id).Nodup :=
  distinct.sublist (List.filter_sublist.map Node.id)

theorem placeholders_of_perm {graph other : Material} (distinct : graph.ids.Nodup)
    (nodes : graph.nodes.Perm other.nodes) : placeholders graph = placeholders other :=
  Wired.ascending_of_perm (ids_filter_nodup distinct _) ((nodes.filter _).map Node.id)

theorem mem_roots_iff {graph : Material} {id : NodeId} :
    id ∈ roots graph ↔ id ∈ graph.roots ∨
      id ∈ placeholders graph ∧
        ∃ node, graph.node? id = some node ∧ isOutputPlaceholder node = true := by
  constructor
  · unfold roots
    generalize placeholders graph = ids
    induction ids using List.reverseRecOn with
    | nil => exact Or.inl
    | append_singleton before last ih =>
        rw [List.foldl_append, List.foldl_cons, List.foldl_nil]
        intro member
        have earlier := fun old => (ih old).imp_right
          (And.imp_left fun listed => List.mem_append_left [last] listed)
        split at member
        · rename_i node found
          split at member
          · rename_i added
            rcases List.mem_append.1 member with old | new
            · exact earlier old
            · obtain rfl := List.mem_singleton.1 new
              exact Or.inr ⟨List.mem_append_right _ List.mem_cons_self, node, found, added.1⟩
          · exact earlier member
        · exact earlier member
  · rintro (old | ⟨listed, node, found, isOutput⟩)
    · refine subset_foldl ?_ (placeholders graph) graph.roots old
      intro known other
      split
      · split
        · exact List.subset_append_left _ _
        · exact List.Subset.refl _
      · exact List.Subset.refl _
    · exact mem_roots listed found isOutput

theorem addFormal_congr {left right : WiredMaterial} (nodes : ∀ id, left.node? id = right.node? id)
    {types others : TypeTable} (same : ∀ key, types.find? key = others.find? key) :
    addFormal left types = addFormal right others := by
  funext formals id
  simp only [addFormal, nodes, same]

def isInputPlaceholder (node : MaterialNode) : Bool :=
  match node.kind with
  | .functionInput _ _ _ => true
  | _ => false

structure Listed (wired : WiredMaterial) (ids : List NodeId) (formals : Formals) : Prop where
  inputs : formals.inputs.map Formal.node =
    ids.filter fun id => (wired.node? id).any isInputPlaceholder
  outputs : formals.outputs.map Formal.node =
    ids.filter fun id => (wired.node? id).any isOutputPlaceholder

theorem Listed.addFormal {wired : WiredMaterial} {types : TypeTable} {ids : List NodeId}
    {formals next : Formals} {id : NodeId} (listed : Listed wired ids formals)
    (added : addFormal wired types formals id = .ok next) : Listed wired (ids ++ [id]) next := by
  obtain ⟨inputs, outputs⟩ := listed
  unfold Callable.addFormal at added
  split at added
  · rename_i absent
    cases added
    constructor <;> simp [List.filter_append, absent, inputs, outputs]
  rename_i node found
  split at added
  · rename_i kind
    cases added
    constructor <;>
      simp [List.filter_append, found, isInputPlaceholder, isOutputPlaceholder, kind, inputs,
        outputs]
  · rename_i kind
    split at added
    · cases added
    · cases added
      constructor <;>
        simp [List.filter_append, found, isInputPlaceholder, isOutputPlaceholder, kind, inputs,
          outputs]
  · rename_i notInput notOutput
    cases added
    have others : isInputPlaceholder node = false ∧ isOutputPlaceholder node = false := by
      unfold isInputPlaceholder isOutputPlaceholder
      cases kind : node.kind with
      | functionInput name type default => exact absurd kind (notInput _ _ _)
      | functionOutput name accepts => exact absurd kind (notOutput _ _)
      | _ => exact ⟨rfl, rfl⟩
    constructor <;> simp [List.filter_append, found, others.1, others.2, inputs, outputs]

/-- The formal ports of one sort stand for the nodes of that sort, in ascending order. -/
theorem filter_placeholders {graph : Material} (distinct : graph.ids.Nodup) {wired : WiredMaterial}
    (wires : Wired.Wires graph wired) {keep : MaterialNode → Bool}
    (placeholder : ∀ node, keep node = true → isPlaceholder node = true)
    (unbinds : ∀ node : MaterialNode, keep node.unbind = keep node) :
    ((placeholders graph).filter fun id => (wired.node? id).any keep) =
      Wired.ascending ((graph.nodes.filter keep).map Node.id) := by
  apply Wired.eq_of_ascending
  · exact (Wired.pairwise_ascending (ids_filter_nodup distinct _)).sublist List.filter_sublist
  · exact Wired.pairwise_ascending (ids_filter_nodup distinct _)
  intro id
  rw [Wired.mem_ascending, List.mem_filter, Option.any_eq_true]
  constructor
  · rintro ⟨_, node, found, kept⟩
    obtain ⟨old, foundOld, same⟩ := wires.original found
    obtain ⟨member, named⟩ := Graph.mem_of_node? foundOld
    rw [← unbinds, ← same, unbinds] at kept
    exact List.mem_map.2 ⟨old, List.mem_filter.2 ⟨member, kept⟩, named⟩
  · intro listed
    obtain ⟨old, member, rfl⟩ := List.mem_map.1 listed
    obtain ⟨member, kept⟩ := List.mem_filter.1 member
    obtain ⟨node, found, same⟩ := wires.wiredNode (Graph.node?_of_mem distinct member)
    refine ⟨Wired.mem_ascending.2 (List.mem_map.2 ⟨old, ?_, rfl⟩), node, found, ?_⟩
    · exact List.mem_filter.2 ⟨member, placeholder old kept⟩
    · rw [← unbinds, ← same, unbinds]
      exact kept

/-- Formal ports are numbered from zero, in ascending order of the nodes they stand for. -/
structure Numbered (formals : List Formal) (ids : List NodeId) : Prop where
  indexes : formals.map (fun formal => formal.index.toNat) = List.range formals.length
  nodes : formals.map Formal.node = Wired.ascending ids

theorem numbered_of_listed {formals : List Formal} {ids : List NodeId}
    (bound : formals.length ≤ UInt32.size)
    (indexes : formals.map Formal.index = (List.range formals.length).map UInt32.ofNat)
    (nodes : formals.map Formal.node = Wired.ascending ids) : Numbered formals ids := by
  refine ⟨?_, nodes⟩
  have numbers := congrArg (List.map UInt32.toNat) indexes
  rw [List.map_map, List.map_map] at numbers
  refine numbers.trans ?_
  conv_rhs => rw [← List.map_id (List.range formals.length)]
  apply List.map_congr_left
  intro index member
  exact UInt32.toNat_ofNat_of_lt' (Nat.lt_of_lt_of_le (List.mem_range.1 member) bound)

theorem ofGraph_numbered {path : String} {graph : Material} (distinct : graph.ids.Nodup)
    {policy : LinkPolicy} {callee : Callable} (made : ofGraph path graph policy = .ok callee) :
    Numbered callee.inputs ((graph.nodes.filter isInputPlaceholder).map Node.id) ∧
      Numbered callee.outputs ((graph.nodes.filter isOutputPlaceholder).map Node.id) := by
  obtain ⟨wired, schedule, types, formals, wire, _, _, _, collected, rfl⟩ :=
    ofGraph_eq_ok_iff.1 made
  have wires := Graph.wires_of_wire wire
  have ports := collected_of_foldlM collected
  have listed : Listed wired (placeholders graph) formals :=
    foldlM_run (Listed wired) (fun _ _ _ _ listed added => listed.addFormal added) []
      ⟨rfl, rfl⟩ collected
  have few : (placeholders graph).length ≤ UInt32.size :=
    (length_placeholders_le graph).trans (length_le_of_nodup distinct)
  constructor
  · apply numbered_of_listed (ports.inputsBound.trans few) ports.inputIndexes
    refine listed.inputs.trans (filter_placeholders distinct wires ?_ fun _ => rfl)
    intro node kept
    unfold isInputPlaceholder at kept
    unfold isPlaceholder
    cases kind : node.kind <;> simp_all
  · apply numbered_of_listed (ports.outputsBound.trans few) ports.outputIndexes
    refine listed.outputs.trans (filter_placeholders distinct wires ?_ fun _ => rfl)
    intro node kept
    unfold isOutputPlaceholder at kept
    unfold isPlaceholder
    cases kind : node.kind <;> simp_all

theorem Built.exists_input {callee : Callable} (built : callee.Built) {id : NodeId}
    {node : MaterialNode} (found : callee.body.node? id = some node)
    (isInput : isInputPlaceholder node = true) : ∃ formal ∈ callee.inputs, formal.node = id := by
  cases built with
  | ofGraph distinct _ _ made =>
      have numbered := (ofGraph_numbered distinct made).1.nodes
      obtain ⟨wired, schedule, types, formals, wire, _, _, _, _, rfl⟩ := ofGraph_eq_ok_iff.1 made
      obtain ⟨old, foundOld, same⟩ := (Graph.wires_of_wire wire).original found
      obtain ⟨member, named⟩ := Graph.mem_of_node? foundOld
      have kinds : old.kind = node.kind := congrArg (fun node => node.kind) same
      have isInputToo : isInputPlaceholder old = true := by
        unfold isInputPlaceholder at isInput ⊢
        rwa [kinds]
      rw [← List.mem_map, numbered, Wired.mem_ascending]
      exact List.mem_map.2 ⟨old, List.mem_filter.2 ⟨member, isInputToo⟩, named⟩

/-- Callables that nobody can tell apart by what they offer their callers. -/
structure SamePorts (callee other : Callable) : Prop where
  inputs : callee.inputs = other.inputs
  outputs : callee.outputs = other.outputs
  types : ∀ key, callee.types.find? key = other.types.find? key
  digest : callee.digest = other.digest

/-- What is a function as it is stored is the same function stored in another order. -/
theorem exists_ofGraph_of_perm {graph other : Material} (distinct : graph.ids.Nodup)
    (nodes : graph.nodes.Perm other.nodes) (sameRoots : graph.roots.Perm other.roots)
    (links : other.links = graph.links) {path : String} {policy : LinkPolicy} {callee : Callable}
    (made : ofGraph path graph policy = .ok callee) :
    ∃ second, ofGraph path other policy = .ok second ∧ SamePorts callee second := by
  obtain ⟨wired, schedule, types, formals, wire, scheduled, resolved, checked, collected, rfl⟩ :=
    ofGraph_eq_ok_iff.1 made
  have found : ∀ id, graph.node? id = other.node? id := Graph.node?_of_perm distinct nodes
  have roots : ∀ id, id ∈ roots graph ↔ id ∈ Callable.roots other := by
    intro id
    rw [mem_roots_iff, mem_roots_iff, placeholders_of_perm distinct nodes, found,
      sameRoots.mem_iff]
  -- Wiring and scheduling succeed together.
  rcases Graph.wire_cases found links policy with
    ⟨_, failed, _⟩ | ⟨_, second, firstWire, secondWire, mirrored⟩
  · cases wire.symm.trans failed
  cases wire.symm.trans firstWire
  have wires := Graph.wires_of_wire wire
  obtain ⟨later, laterScheduled⟩ := (mirrored.schedule_isOk_iff roots).1 ⟨schedule, scheduled⟩
  have members := mirrored.mem_order_iff roots scheduled laterScheduled
  -- Both schedules are checked over one of the graphs: a check only looks nodes up.
  have clean : (Typing.checkAll second false schedule.order []).2 = [] := by
    rw [← Typing.checkAll_congr mirrored, checked]
  have orderly := (Graph.wires_of_wire secondWire).orderly laterScheduled
  have firstOrderly := (wires.orderly scheduled).of_mirrors mirrored
  obtain ⟨laterClean, recorded⟩ := Typing.checkAll_reordered firstOrderly orderly members clean
  have sameTypes : ∀ key,
      types.find? key = (Typing.checkAll second false later.order []).1.find? key := by
    intro key
    rw [recorded, ← Typing.checkAll_congr mirrored, checked]
  refine ⟨_, ofGraph_eq_ok_iff.2 ⟨second, later, _, formals, secondWire, laterScheduled,
    (mirrored.unresolvedCall?_iff members).1 resolved, Prod.ext rfl laterClean, ?_, rfl⟩,
    rfl, rfl, sameTypes, ?_⟩
  · rw [← placeholders_of_perm distinct nodes, ← addFormal_congr mirrored.nodes sameTypes]
    exact collected
  · show wired.fingerprint _ = second.fingerprint _
    unfold Wired.fingerprint Wired.stream
    rw [(Wired.SameRecords.of_mirrors wires mirrored roots).records_eq]

/-- How a graph is stored does not matter to the function it is. A graph with the same links whose
nodes and roots stand in another order is a function exactly if the graph is, with the same formal
ports, numbered in ascending order of their nodes, the same types and the same digest. -/
theorem ofGraph_independent_of_storage {graph other : Material} (distinct : graph.ids.Nodup)
    (nodes : graph.nodes.Perm other.nodes) (roots : graph.roots.Perm other.roots)
    (links : other.links = graph.links) (path : String) (policy : LinkPolicy) :
    ((∃ callee, ofGraph path graph policy = .ok callee) ↔
      ∃ callee, ofGraph path other policy = .ok callee) ∧
    ∀ callee second, ofGraph path graph policy = .ok callee →
      ofGraph path other policy = .ok second →
        callee.inputs = second.inputs ∧ callee.outputs = second.outputs ∧
        (callee.inputs.map (fun formal => formal.index.toNat) = List.range callee.inputs.length ∧
          callee.inputs.map Formal.node =
            Wired.ascending ((graph.nodes.filter isInputPlaceholder).map Node.id)) ∧
        (callee.outputs.map (fun formal => formal.index.toNat) = List.range callee.outputs.length ∧
          callee.outputs.map Formal.node =
            Wired.ascending ((graph.nodes.filter isOutputPlaceholder).map Node.id)) ∧
        (∀ key, callee.types.find? key = second.types.find? key) ∧
        callee.digest = second.digest := by
  have there : ∀ {callee}, ofGraph path graph policy = .ok callee →
      ∃ second, ofGraph path other policy = .ok second ∧ SamePorts callee second :=
    exists_ofGraph_of_perm distinct nodes roots links
  have otherDistinct : other.ids.Nodup := (nodes.map Node.id).nodup_iff.1 distinct
  refine ⟨⟨?_, ?_⟩, ?_⟩
  · rintro ⟨callee, made⟩
    obtain ⟨second, otherMade, _⟩ := there made
    exact ⟨second, otherMade⟩
  · rintro ⟨second, made⟩
    obtain ⟨callee, otherMade, _⟩ :=
      exists_ofGraph_of_perm otherDistinct nodes.symm roots.symm links.symm made
    exact ⟨callee, otherMade⟩
  · intro callee second made otherMade
    obtain ⟨same, sameMade, ports⟩ := there made
    cases otherMade.symm.trans sameMade
    obtain ⟨inputs, outputs⟩ := ofGraph_numbered distinct made
    exact ⟨ports.inputs, ports.outputs, ⟨inputs.indexes, inputs.nodes⟩,
      ⟨outputs.indexes, outputs.nodes⟩, ports.types, ports.digest⟩

end Callable

namespace Sample

def reversed : Material := { double with nodes := double.nodes.reverse }

end Sample

/-- Stored the other way round, the graph that adds its input to itself is the same function. -/
theorem Callable.ofGraph_independent_of_storage_reversed :
    ∃ callee second, ofGraph "double" Sample.double .strict = .ok callee ∧
      ofGraph "double" Sample.reversed .strict = .ok second ∧
      callee.inputs = second.inputs ∧ callee.outputs = second.outputs ∧
      callee.digest = second.digest := by
  have nodes : Sample.double.nodes.Perm Sample.reversed.nodes := (List.reverse_perm _).symm
  have roots : Sample.double.roots.Perm Sample.reversed.roots := List.Perm.refl _
  obtain ⟨accepts, same⟩ := Callable.ofGraph_independent_of_storage
    (show Sample.double.ids.Nodup by decide) nodes roots rfl "double" .strict
  have made := Sample.callee_made
  obtain ⟨second, otherMade⟩ := accepts.1 ⟨_, made⟩
  obtain ⟨inputs, outputs, _, _, _, digest⟩ := same _ second made otherMade
  exact ⟨_, second, made, otherMade, inputs, outputs, digest⟩

end MaterialGraph
