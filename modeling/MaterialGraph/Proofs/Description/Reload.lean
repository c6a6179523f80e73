import MaterialGraph.Proofs.Library.Calls
import Mathlib.Data.List.Find

/-!
Graphs saved and loaded again. What a description leaves out is what the kinds of nodes provide, so
loading it puts everything back in its place: names, kinds, slots, links and roots, and defaults
bit for bit. The one exception is a default that equals the one of its kind as a number but not in
its bits. It is left out too, and the slot gets the default of the kind.
-/

set_option autoImplicit false

namespace MaterialGraph

namespace InputSlot

structure Varies (layout slot : InputSlot) : Prop where
  same : slot = { layout with default := slot.default }
  default : layout.default.isSome = true → slot.default.isSome = true

/-- A slot saved and loaded again, given the slots of its kind: a default that equals the provided
one as a number was not saved. -/
def restored (template : List InputSlot) (slot : InputSlot) : InputSlot :=
  match (template.find? fun layout => layout.id = slot.id).bind InputSlot.default, slot.default with
  | some provided, some value =>
      if provided.sameNumbers value then { slot with default := some provided } else slot
  | _, _ => slot

/-- A default that is the number a template provides is this default, bit for bit. -/
def Exact (template : List InputSlot) (slot : InputSlot) : Prop :=
  ∀ layout ∈ template, layout.id = slot.id → ∀ provided value, layout.default = some provided →
    slot.default = some value → provided.sameNumbers value = true → provided = value

theorem restored_eq_iff {template : List InputSlot} (distinct : (template.map InputSlot.id).Nodup)
    (slot : InputSlot) : slot.restored template = slot ↔ slot.Exact template := by
  constructor
  · intro same layout member named provided value given saved numbers
    have found := find?_key_of_mem distinct member
    rw [named] at found
    unfold restored at same
    rw [found, Option.bind_some, given, saved] at same
    simp only [numbers, if_true] at same
    exact Option.some.inj ((congrArg InputSlot.default same).trans saved)
  · intro exact
    unfold restored
    split
    · rename_i provided value given saved
      obtain ⟨layout, found, default⟩ := Option.bind_eq_some_iff.1 given
      have named : layout.id = slot.id := by simpa using List.find?_some found
      split
      · rename_i numbers
        rw [exact layout (List.mem_of_find?_eq_some found) named provided value default saved
          numbers, ← saved]
      · rfl
    · rfl

end InputSlot

namespace Node

def restored (node : MaterialNode) : MaterialNode :=
  { node with inputs := node.inputs.map (InputSlot.restored node.kind.inputs) }

theorem restored_eq_iff {node : MaterialNode} (callees : node.kind.CalleeBuilt) :
    node.restored = node ↔ ∀ slot ∈ node.inputs, slot.Exact node.kind.inputs := by
  have slots := InputSlot.restored_eq_iff (Kind.inputs_nodup callees)
  have inputs : node.restored = node ↔
      node.inputs.map (InputSlot.restored node.kind.inputs) = node.inputs :=
    ⟨congrArg Node.inputs, congrArg fun inputs => { node with inputs }⟩
  rw [inputs, map_eq_self_iff]
  exact forall₂_congr fun slot _ => slots slot

theorem Built.varies {node : MaterialNode} (built : node.Built) :
    List.Forall₂ InputSlot.Varies node.kind.inputs node.inputs := by
  induction built with
  | new id kind => exact List.forall₂_same.2 fun slot _ => ⟨rfl, fun given => given⟩
  | named name built ih => exact ih
  | defaulted slot value built ih =>
      refine forall₂_updateFirst ih slot ?_
      intro layout input varies
      exact ⟨congrArg (fun slot => { slot with default := some value }) varies.same, fun _ => rfl⟩

end Node

namespace Entry

def override? (template : List InputSlot) (input : InputSlot) : Option Override :=
  match input.default with
  | none => none
  | some value => if isProvided template input.id value then none else some ⟨input.id, value⟩

theorem isProvided_iff {template : List InputSlot}
    (distinct : (template.map InputSlot.id).Nodup) {layout : InputSlot} (member : layout ∈ template)
    (value : Literal) :
    isProvided template layout.id value = true ↔
      ∃ provided, layout.default = some provided ∧ provided.sameNumbers value = true := by
  unfold isProvided
  rw [List.any_eq_true]
  constructor
  · rintro ⟨other, listed, provides⟩
    rw [Bool.and_eq_true, decide_eq_true_eq] at provides
    have here := find?_key_of_mem distinct listed
    rw [provides.1, find?_key_of_mem distinct member] at here
    cases here
    have same := provides.2
    split at same
    · rename_i provided given
      exact ⟨provided, given, same⟩
    · cases same
  · rintro ⟨provided, given, same⟩
    refine ⟨layout, member, ?_⟩
    simp only [given, same, decide_true, Bool.and_true]

theorem override_cases {template : List InputSlot} (distinct : (template.map InputSlot.id).Nodup)
    {layout input : InputSlot} (member : layout ∈ template) (varies : layout.Varies input) :
    (override? template input = none ∧ input.restored template = layout) ∨
      ∃ value, override? template input = some ⟨layout.id, value⟩ ∧
        input.restored template = { layout with default := some value } := by
  have named : input.id = layout.id := by rw [varies.same]
  have provided : (template.find? fun other => other.id = input.id).bind InputSlot.default =
      layout.default := by
    rw [named, find?_key_of_mem distinct member]
    rfl
  have provides := isProvided_iff distinct member
  have same := varies.same
  unfold override? InputSlot.restored
  rw [provided]
  cases saved : input.default with
  | none =>
      have missing : layout.default = none := by
        cases given : layout.default with
        | none => rfl
        | some provided =>
            have kept := varies.default (by rw [given]; rfl)
            rw [saved] at kept
            cases kept
      rw [saved, ← missing] at same
      refine Or.inl ⟨rfl, ?_⟩
      rw [missing]
      exact same
  | some value =>
      rw [saved] at same
      rw [named]
      by_cases dropped : isProvided template layout.id value = true
      · obtain ⟨old, given, equal⟩ := (provides value).1 dropped
        refine Or.inl ⟨if_pos dropped, ?_⟩
        simp only [given, equal, if_true]
        rw [same, ← given]
      · refine Or.inr ⟨value, if_neg dropped, ?_⟩
        rw [← same]
        split
        · rename_i old other given equal
          cases equal
          rw [if_neg fun numbers => dropped ((provides value).2 ⟨old, given, numbers⟩)]
        · rfl

/-- Over the slots of a kind, the saved defaults restore every slot behind those already done. -/
theorem applyDefaults_overrides {template : List InputSlot}
    (distinct : (template.map InputSlot.id).Nodup) {layouts inputs : List InputSlot}
    (varies : List.Forall₂ InputSlot.Varies layouts inputs) {before : List InputSlot}
    (apart : ((before ++ layouts).map InputSlot.id).Nodup)
    (listed : ∀ layout ∈ layouts, layout ∈ template) (node : MaterialNode) :
    applyDefaults { node with inputs := before ++ layouts }
        (inputs.filterMap (override? template)) =
      .ok { node with inputs := before ++ inputs.map (InputSlot.restored template) } := by
  induction varies generalizing before with
  | nil => rfl
  | @cons layout input layouts inputs first rest ih =>
      rw [List.forall_mem_cons] at listed
      have later : ∀ done : InputSlot, done.id = layout.id →
          ((before ++ [done] ++ layouts).map InputSlot.id).Nodup := by
        intro done named
        simpa [named] using apart
      rcases override_cases distinct listed.1 first with
        ⟨unsaved, restored⟩ | ⟨value, saved, restored⟩
      · have next := ih (later layout rfl) listed.2
        rw [List.filterMap_cons_none unsaved, List.map_cons, restored]
        simpa using next
      · have absent : layout.id ∉ before.map InputSlot.id := by
          rw [List.map_append, List.nodup_append] at apart
          intro old
          exact apart.2.2 layout.id old layout.id List.mem_cons_self rfl
        have found : (before ++ layout :: layouts).find? (fun slot => slot.id = layout.id) =
            some layout := by
          rw [List.find?_append, List.find?_eq_none.2, List.find?_cons_of_pos (by simp)]
          · rfl
          · intro slot member same
            exact absent (List.mem_map.2 ⟨slot, member, by simpa using same⟩)
        have next := ih (later { layout with default := some value } rfl) listed.2
        rw [List.filterMap_cons_some saved, List.map_cons, restored]
        simp only [applyDefaults, Node.input?, found, Node.withDefault,
          Node.updateInput, updateFirst_append absent, updateFirst, if_true]
        simpa using next

theorem built_toNode {resolve : Resolver} {entry : Entry} {node : MaterialNode}
    (made : entry.toNode resolve = .ok node) : node.Built ∧ node.id = entry.id := by
  refine Description.applyDefaults_keeps (fun node => node.Built ∧ node.id = entry.id)
    (fun _ slot value kept => ⟨.defaulted slot value kept.1, kept.2⟩) ?_ made
  split
  · exact ⟨.named _ (.new _ _), rfl⟩
  · exact ⟨.new _ _, rfl⟩

/-- A node of slots with distinct identifiers, whose kind is found again, is restored. -/
theorem toNode_ofNode {node : MaterialNode} (built : node.Built)
    (distinct : (node.kind.inputs.map InputSlot.id).Nodup) {resolve : Resolver}
    (resolved : (node.kind.map CallSite.path).map resolve = node.kind) (roots : List NodeId) :
    (ofNode roots node).toNode resolve = .ok node.restored := by
  have slots : node.outputs = node.kind.outputs := built.laid.outputs
  have start : (Node.ofKind node.id node.kind).withName node.name =
      { node with inputs := [] ++ node.kind.inputs } := by
    rw [Node.ofKind, Node.withName, ← slots]
    rfl
  have apart : (([] ++ node.kind.inputs).map InputSlot.id).Nodup := distinct
  have applied := applyDefaults_overrides distinct built.varies apart (fun _ member => member) node
  have kind : (ofNode roots node).kind.map resolve = node.kind := resolved
  rw [← start] at applied
  by_cases same : node.name = node.kind.label
  · -- The name of the kind is not saved, and comes back with the kind.
    have unsaved : (ofNode roots node).name = none := if_pos same
    have named : (Node.ofKind node.id node.kind).withName node.name =
        Node.ofKind node.id node.kind := by
      rw [same]
      rfl
    rw [named] at applied
    unfold toNode
    rw [kind, unsaved]
    exact applied
  · have saved : (ofNode roots node).name = some node.name := if_neg same
    unfold toNode
    rw [kind, saved]
    exact applied

end Entry

namespace Graph

def append (graph : Material) (node : MaterialNode) (root : Bool) : Material :=
  { graph with
    nodes := graph.nodes ++ [node]
    roots := graph.roots ++ if root then [node.id] else [] }

theorem contains_iff_mem_ids {graph : Material} {id : NodeId} :
    graph.contains id = true ↔ id ∈ graph.ids := by
  rw [contains_iff]
  constructor
  · rintro ⟨node, found⟩
    obtain ⟨member, named⟩ := mem_of_node? found
    exact List.mem_map.2 ⟨node, member, named⟩
  · intro listed
    obtain ⟨node, member, named⟩ := List.mem_map.1 listed
    unfold node?
    rw [← Option.isSome_iff_exists, List.find?_isSome]
    exact ⟨node, member, by simpa using named⟩

theorem putNode_of_notMem {node : MaterialNode} {nodes : List MaterialNode}
    (absent : node.id ∉ nodes.map Node.id) : putNode node nodes = nodes ++ [node] := by
  induction nodes with
  | nil => rfl
  | cons first rest ih =>
      rw [List.map_cons, List.mem_cons, not_or] at absent
      rw [putNode, if_neg (Ne.symm absent.1), ih absent.2, List.cons_append]

def restored (graph : Material) : Material := { graph with nodes := graph.nodes.map Node.restored }

/-- A graph is restored as it was exactly if all its defaults are exact. -/
theorem restored_eq_self_iff {graph : Material} (built : graph.Built) :
    graph.restored = graph ↔
      ∀ node ∈ graph.nodes, ∀ slot ∈ node.inputs, slot.Exact node.kind.inputs := by
  have nodes : graph.restored = graph ↔ graph.nodes.map Node.restored = graph.nodes :=
    ⟨congrArg Graph.nodes, congrArg fun nodes => { graph with nodes }⟩
  rw [nodes, map_eq_self_iff]
  exact forall₂_congr fun node member => Node.restored_eq_iff (built.callees node member)

end Graph

structure Resolver.Sound (resolve : Resolver) : Prop where
  path : ∀ path, CallSite.path (resolve path) = path
  built : ∀ path callee, resolve path = .resolved callee → callee.Built

namespace Resolver.Sound

variable {resolve : Resolver}

theorem calleeBuilt (sound : resolve.Sound) (kind : Kind String) :
    (kind.map resolve).CalleeBuilt := by
  intro callee called
  cases kind with
  | call path => exact sound.built path callee (Kind.call.inj called)
  | _ => cases called

theorem map_map (sound : resolve.Sound) (kind : Kind String) :
    ((kind.map resolve).map CallSite.path).map resolve = kind.map resolve := by
  cases kind with
  | call path => rw [Kind.map, Kind.map, Kind.map, sound.path]
  | _ => rfl

end Resolver.Sound

/-- What a graph made from a description has: nodes as authors make them, roots in the order of the
nodes, and calls of what their paths stand for. -/
structure Graph.Stored (resolve : Resolver) (graph : Material) : Prop where
  built : graph.Built
  roots : graph.roots = graph.ids.filter graph.roots.contains
  resolved : ∀ node ∈ graph.nodes, (node.kind.map CallSite.path).map resolve = node.kind

namespace Graph.Stored

variable {resolve : Resolver} {graph : Material}

theorem empty (resolve : Resolver) (name : String) : Stored resolve (Graph.empty name) :=
  ⟨.empty name, rfl, by simp [Graph.empty]⟩

theorem mem_ids (stored : graph.Stored resolve) {id : NodeId} (root : id ∈ graph.roots) :
    id ∈ graph.ids := by
  rw [stored.roots] at root
  exact (List.mem_filter.1 root).1

theorem append (stored : graph.Stored resolve) {node : MaterialNode} (built : node.Built)
    (callees : node.kind.CalleeBuilt) (fresh : node.id ∉ graph.ids)
    (resolved : (node.kind.map CallSite.path).map resolve = node.kind) (root : Bool) :
    (graph.append node root).Stored resolve := by
  have ids : (graph.append node root).ids = graph.ids ++ [node.id] := by
    unfold Graph.append Graph.ids
    rw [List.map_append, List.map_singleton]
  have members : ∀ other ∈ (graph.append node root).nodes, other ∈ graph.nodes ∨ other = node := by
    intro other member
    rcases List.mem_append.1 member with old | new
    · exact Or.inl old
    · exact Or.inr (List.mem_singleton.1 new)
  refine ⟨⟨?_, ?_, ?_⟩, ?_, ?_⟩
  · rw [ids, List.nodup_append]
    refine ⟨stored.built.distinct, List.nodup_singleton _, ?_⟩
    intro old member other new same
    exact fresh (List.mem_singleton.1 new ▸ same ▸ member)
  · intro other member
    rcases members other member with old | rfl
    · exact stored.built.nodes other old
    · exact built
  · intro other member
    rcases members other member with old | rfl
    · exact stored.built.callees other old
    · exact callees
  · -- No earlier node is the new root, and the new node was no root before.
    have notRoot : node.id ∉ graph.roots := fun old => fresh (stored.mem_ids old)
    have earlier : graph.ids.filter (graph.append node root).roots.contains =
        graph.ids.filter graph.roots.contains := by
      apply List.filter_congr
      intro id member
      have different : id ≠ node.id := fun same => fresh (same ▸ member)
      cases root <;> simp [Graph.append, different]
    rw [ids, List.filter_append, earlier, ← stored.roots]
    cases root <;> simp [Graph.append, notRoot]
  · intro other member
    rcases members other member with old | rfl
    · exact stored.resolved other old
    · exact resolved

end Graph.Stored

namespace Description

variable {resolve : Resolver}

theorem addEntry_eq {graph : Material} (known : ∀ root ∈ graph.roots, root ∈ graph.ids)
    {entry : Entry} (fresh : entry.id ∉ graph.ids) {node : MaterialNode}
    (made : entry.toNode resolve = .ok node) :
    addEntry resolve graph entry = .ok (graph.append node entry.locked) := by
  have named := (Entry.built_toNode made).2
  have absent : ¬graph.contains entry.id = true := fun found =>
    fresh (Graph.contains_iff_mem_ids.1 found)
  have put : Graph.putNode node graph.nodes = graph.nodes ++ [node] :=
    Graph.putNode_of_notMem (named ▸ fresh)
  have notRoot : ¬graph.roots.contains node.id = true := by
    rw [List.contains_iff_mem, named]
    exact fun root => fresh (known _ root)
  unfold addEntry
  rw [if_neg absent, made]
  cases locked : entry.locked with
  | false => simp [Graph.insert, put, Graph.append]
  | true =>
      simp only [if_true, Graph.insertRoot, Graph.insert, put, Graph.markRoot, if_neg notRoot,
        Graph.append]

theorem stored_of_addEntry (sound : resolve.Sound) {graph next : Material} {entry : Entry}
    (stored : graph.Stored resolve) (added : addEntry resolve graph entry = .ok next) :
    next.Stored resolve := by
  have fresh : entry.id ∉ graph.ids := by
    intro listed
    rw [addEntry, if_pos (Graph.contains_iff_mem_ids.2 listed)] at added
    cases added
  cases made : entry.toNode resolve with
  | error error =>
      rw [addEntry, if_neg fun found => fresh (Graph.contains_iff_mem_ids.1 found), made] at added
      cases added
  | ok node =>
      obtain ⟨built, named⟩ := Entry.built_toNode made
      have kind := kind_toNode made
      rw [addEntry_eq (fun _ root => stored.mem_ids root) fresh made] at added
      cases added
      exact stored.append built (kind ▸ sound.calleeBuilt entry.kind) (named ▸ fresh)
        (by rw [kind, sound.map_map]) entry.locked

theorem stored_of_toGraph (sound : resolve.Sound) {description : Description} {graph : Material}
    (made : description.toGraph resolve = .ok graph) : graph.Stored resolve := by
  unfold toGraph at made
  split at made
  · cases made
  rename_i filled ran
  cases made
  have stored : filled.Stored resolve := foldlM_run (fun _ graph => graph.Stored resolve)
    (fun _ _ _ _ stored added => stored_of_addEntry sound stored added) []
    (Graph.Stored.empty resolve _) ran
  exact ⟨⟨stored.built.distinct, stored.built.nodes, stored.built.callees⟩, stored.roots,
    stored.resolved⟩

theorem foldlM_ofNode {graph : Material} (stored : graph.Stored resolve)
    {before rest : List MaterialNode} (split : graph.nodes = before ++ rest) (name : String) :
    (rest.map (Entry.ofNode graph.roots)).foldlM (addEntry resolve)
        ⟨name, before.map Node.restored, [],
          (before.map Node.id).filter graph.roots.contains⟩ =
      .ok ⟨name, graph.nodes.map Node.restored, [], graph.roots⟩ := by
  induction rest generalizing before with
  | nil =>
      rw [List.append_nil] at split
      rw [List.map_nil, List.foldlM_nil, ← split]
      conv_rhs => rw [stored.roots]
      rfl
  | cons node rest ih =>
      have member : node ∈ graph.nodes := by simp [split]
      have made := Entry.toNode_ofNode (stored.built.nodes node member)
        (Kind.inputs_nodup (stored.built.callees node member)) (stored.resolved node member)
        graph.roots
      have distinct := stored.built.distinct
      unfold Graph.ids at distinct
      rw [split, List.map_append, List.map_cons, List.nodup_append] at distinct
      have ids : (before.map Node.restored).map Node.id = before.map Node.id := by
        rw [List.map_map]
        rfl
      have fresh : node.id ∉ (before.map Node.restored).map Node.id := by
        rw [ids]
        exact fun old => distinct.2.2 node.id old node.id List.mem_cons_self rfl
      have known : ∀ root ∈ (before.map Node.id).filter graph.roots.contains,
          root ∈ (before.map Node.restored).map Node.id := by
        intro root listed
        rw [ids]
        exact (List.mem_filter.1 listed).1
      have step : addEntry resolve ⟨name, before.map Node.restored, [],
            (before.map Node.id).filter graph.roots.contains⟩ (Entry.ofNode graph.roots node) =
          .ok ⟨name, (before ++ [node]).map Node.restored, [],
            ((before ++ [node]).map Node.id).filter graph.roots.contains⟩ := by
        rw [addEntry_eq known fresh made]
        simp only [Graph.append, List.map_append, List.map_singleton, List.filter_append,
          Except.ok.injEq, Graph.mk.injEq, true_and, List.append_cancel_left_eq]
        rw [List.filter_cons, List.filter_nil]
        rfl
      rw [List.map_cons, List.foldlM_cons, step]
      exact ih (by simpa using split)

/-- Saved and loaded again, a graph made from a description is restored. -/
theorem toGraph_ofGraph {graph : Material} (stored : graph.Stored resolve) :
    (ofGraph graph).toGraph resolve = .ok graph.restored := by
  have ran := foldlM_ofNode stored (show graph.nodes = [] ++ graph.nodes from rfl) graph.name
  unfold toGraph
  rw [show (ofGraph graph).nodes.foldlM (addEntry resolve)
    (Graph.empty ((ofGraph graph).name.getD Graph.untitled)) = _ from ran]
  rfl

end Description

end MaterialGraph
