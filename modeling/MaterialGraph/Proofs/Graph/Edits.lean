import MaterialGraph.Callable.Basic
import Mathlib.Data.List.Nodup

/-!
Editing graphs. Whatever an edit does to a node, to its mark as a root and to the links at it, is
gone once that node is removed, and every other node, link and root is where it was. So a run of
edits to a node that was not there before is undone by one removal, and no run of edits ever
repeats an identifier.
-/

set_option autoImplicit false

namespace MaterialGraph

variable {Target : Type}

namespace Graph

theorem mem_putNode {node other : Node Target} {nodes : List (Node Target)}
    (member : other ∈ putNode node nodes) : other = node ∨ other ∈ nodes := by
  induction nodes with
  | nil => exact Or.inl (List.mem_singleton.1 member)
  | cons first rest ih =>
      unfold putNode at member
      split at member
      · rcases List.mem_cons.1 member with same | later
        · exact Or.inl same
        · exact Or.inr (List.mem_cons_of_mem _ later)
      · rcases List.mem_cons.1 member with same | later
        · exact Or.inr (same ▸ List.mem_cons_self)
        · exact (ih later).imp_right (List.mem_cons_of_mem _)

theorem nodup_putNode {node : Node Target} {nodes : List (Node Target)}
    (distinct : (nodes.map Node.id).Nodup) : ((putNode node nodes).map Node.id).Nodup := by
  induction nodes with
  | nil => exact List.nodup_singleton _
  | cons first rest ih =>
      rw [List.map_cons, List.nodup_cons] at distinct
      unfold putNode
      split
      · rename_i same
        rw [List.map_cons, List.nodup_cons, ← same]
        exact distinct
      · rename_i different
        rw [List.map_cons, List.nodup_cons]
        refine ⟨?_, ih distinct.2⟩
        intro listed
        rcases List.mem_map.1 listed with ⟨other, member, same⟩
        rcases mem_putNode member with rfl | old
        · exact different same.symm
        · exact distinct.1 (same ▸ List.mem_map_of_mem old)

theorem filter_putNode (node : Node Target) (nodes : List (Node Target)) :
    (putNode node nodes).filter (fun other => other.id ≠ node.id) =
      nodes.filter fun other => other.id ≠ node.id := by
  induction nodes with
  | nil => simp [putNode]
  | cons first rest ih =>
      unfold putNode
      split
      · rename_i same
        rw [List.filter_cons_of_neg (by simp), List.filter_cons_of_neg (by simp [same])]
      · rename_i different
        rw [List.filter_cons_of_pos (by simpa using different),
          List.filter_cons_of_pos (by simpa using different), ih]

theorem node?_remove (graph : Graph Target) {removed id : NodeId} (different : id ≠ removed) :
    (graph.remove removed).node? id = graph.node? id := by
  unfold node? remove
  rw [List.find?_filter]
  congr 1
  funext node
  by_cases here : node.id = id
  · simp [here, different]
  · simp [here]

theorem contains_remove (graph : Graph Target) {removed id : NodeId} (different : id ≠ removed) :
    (graph.remove removed).contains id = graph.contains id := by
  rw [contains, contains, node?_remove graph different]

theorem roots_remove (graph : Graph Target) {removed : NodeId} (notRoot : removed ∉ graph.roots) :
    (graph.remove removed).roots = graph.roots := by
  apply List.filter_eq_self.2
  intro root listed
  simpa using fun same : root = removed => notRoot (same ▸ listed)

structure Distinct (graph : Graph Target) : Prop where
  nodes : graph.ids.Nodup
  roots : graph.roots.Nodup

structure Unused (graph : Graph Target) (id : NodeId) : Prop where
  node : id ∉ graph.ids
  links : ∀ link ∈ graph.links, link.touches id = false
  root : id ∉ graph.roots

theorem Unused.remove_eq_self {graph : Graph Target} {id : NodeId} (unused : graph.Unused id) :
    graph.remove id = graph := by
  have nodes : (graph.remove id).nodes = graph.nodes := by
    apply List.filter_eq_self.2
    intro node listed
    simpa using fun same : node.id = id => unused.node (same ▸ List.mem_map_of_mem listed)
  have links : (graph.remove id).links = graph.links := by
    apply List.filter_eq_self.2
    intro link listed
    rw [unused.links link listed, Bool.not_false]
  calc graph.remove id
      = ⟨graph.name, (graph.remove id).nodes, (graph.remove id).links, (graph.remove id).roots⟩ :=
        rfl
    _ = graph := by rw [nodes, links, graph.roots_remove unused.root]

theorem remove_insert (graph : Graph Target) (node : Node Target) :
    (graph.insert node).remove node.id = graph.remove node.id := by
  unfold remove insert
  rw [filter_putNode]

theorem remove_markRoot (graph : Graph Target) (id : NodeId) :
    (graph.markRoot id).remove id = graph.remove id := by
  unfold markRoot
  split
  · rfl
  · unfold remove
    simp only [List.filter_append, List.filter_singleton, ne_eq, not_true_eq_false, decide_false,
      cond_false, List.append_nil]

theorem remove_connect (graph : Graph Target) {link : Link} {id : NodeId}
    (touches : link.touches id = true) : (graph.connect link).remove id = graph.remove id := by
  unfold remove connect
  simp only [List.filter_append, List.filter_singleton, touches, Bool.not_true, cond_false,
    List.append_nil]

theorem remove_remove (graph : Graph Target) (id : NodeId) :
    (graph.remove id).remove id = graph.remove id := by
  unfold remove
  simp only [List.filter_filter, Bool.and_self]

namespace Distinct

variable {graph : Graph Target}

theorem empty (name : String) : (Graph.empty name : Graph Target).Distinct :=
  ⟨List.nodup_nil, List.nodup_nil⟩

theorem insert (distinct : graph.Distinct) (node : Node Target) : (graph.insert node).Distinct :=
  ⟨nodup_putNode distinct.nodes, distinct.roots⟩

theorem markRoot (distinct : graph.Distinct) (id : NodeId) : (graph.markRoot id).Distinct := by
  unfold Graph.markRoot
  split
  · exact distinct
  · rename_i fresh
    have once : id ∉ graph.roots := by simpa using fresh
    exact ⟨distinct.nodes, List.nodup_append.2 ⟨distinct.roots, List.nodup_singleton id,
      fun root listed other same => by
        rw [List.mem_singleton] at same
        rintro rfl
        exact once (same ▸ listed)⟩⟩

theorem remove (distinct : graph.Distinct) (id : NodeId) : (graph.remove id).Distinct :=
  ⟨distinct.nodes.sublist (List.filter_sublist.map Node.id), distinct.roots.filter _⟩

end Distinct

end Graph

inductive Edit (Target : Type) where
  | insert (node : Node Target)
  | insertRoot (node : Node Target)
  | markRoot (id : NodeId)
  | connect (link : Link)
  | remove (id : NodeId)

namespace Edit

def apply (graph : Graph Target) : Edit Target → Graph Target
  | insert node => graph.insert node
  | insertRoot node => graph.insertRoot node
  | markRoot id => graph.markRoot id
  | connect link => graph.connect link
  | remove id => graph.remove id

/-- The edit is to the node with an identifier, to its mark as a root, or to a link at it. -/
def Concerns (id : NodeId) : Edit Target → Prop
  | insert node => node.id = id
  | insertRoot node => node.id = id
  | markRoot root => root = id
  | connect link => link.touches id = true
  | remove removed => removed = id

instance (id : NodeId) : (edit : Edit Target) → Decidable (edit.Concerns id)
  | insert node => inferInstanceAs (Decidable (node.id = id))
  | insertRoot node => inferInstanceAs (Decidable (node.id = id))
  | markRoot root => inferInstanceAs (Decidable (root = id))
  | connect link => inferInstanceAs (Decidable (link.touches id = true))
  | remove removed => inferInstanceAs (Decidable (removed = id))

/-- Once the node it concerns is removed, an edit has made no difference. -/
theorem remove_apply {edit : Edit Target} {id : NodeId} (concerns : edit.Concerns id)
    (graph : Graph Target) : (edit.apply graph).remove id = graph.remove id := by
  cases edit with
  | insert node =>
      obtain rfl : node.id = id := concerns
      exact graph.remove_insert node
  | insertRoot node =>
      obtain rfl : node.id = id := concerns
      exact ((graph.insert node).remove_markRoot node.id).trans (graph.remove_insert node)
  | markRoot root =>
      obtain rfl : root = id := concerns
      exact graph.remove_markRoot root
  | connect link => exact graph.remove_connect concerns
  | remove removed =>
      obtain rfl : removed = id := concerns
      exact graph.remove_remove removed

theorem distinct_apply (edit : Edit Target) {graph : Graph Target} (distinct : graph.Distinct) :
    (edit.apply graph).Distinct := by
  cases edit with
  | insert node => exact distinct.insert node
  | insertRoot node => exact (distinct.insert node).markRoot node.id
  | markRoot id => exact distinct.markRoot id
  | connect link => exact ⟨distinct.nodes, distinct.roots⟩
  | remove id => exact distinct.remove id

end Edit

namespace Graph

def edited (graph : Graph Target) (edits : List (Edit Target)) : Graph Target :=
  edits.foldl Edit.apply graph

theorem remove_edited {graph : Graph Target} {id : NodeId} {edits : List (Edit Target)}
    (concern : ∀ edit ∈ edits, edit.Concerns id) :
    (graph.edited edits).remove id = graph.remove id := by
  induction edits generalizing graph with
  | nil => rfl
  | cons edit rest induction =>
      obtain ⟨here, later⟩ := List.forall_mem_cons.1 concern
      calc ((edit.apply graph).edited rest).remove id
          = (edit.apply graph).remove id := induction later
        _ = graph.remove id := edit.remove_apply here graph

theorem Distinct.edited {graph : Graph Target} (distinct : graph.Distinct)
    (edits : List (Edit Target)) : (graph.edited edits).Distinct := by
  induction edits generalizing graph with
  | nil => exact distinct
  | cons edit rest induction => exact induction (edit.distinct_apply distinct)

/-- Removing a node undoes all edits that concern it, if its identifier was not used before: the
nodes, the links and the roots are the same, and in the same order. Meanwhile no identifier is
repeated, and all that does not concern the node stays the same, and in the same order. -/
theorem remove_undoes_edits {graph : Graph Target} (distinct : graph.Distinct) {id : NodeId}
    (unused : graph.Unused id) {edits : List (Edit Target)}
    (concern : ∀ edit ∈ edits, edit.Concerns id) :
    (graph.edited edits).remove id = graph ∧
      ∀ before, before <+: edits →
        (graph.edited before).ids.Nodup ∧ (graph.edited before).roots.Nodup ∧
        (graph.edited before).name = graph.name ∧
        (graph.edited before).nodes.filter (fun node => node.id ≠ id) = graph.nodes ∧
        (graph.edited before).links.filter (fun link => !link.touches id) = graph.links ∧
        (graph.edited before).roots.filter (fun root => root ≠ id) = graph.roots := by
  have undone : ∀ before, before <+: edits → (graph.edited before).remove id = graph := by
    intro before initial
    rw [remove_edited fun edit member => concern edit (initial.subset member)]
    exact unused.remove_eq_self
  refine ⟨undone edits List.prefix_rfl, ?_⟩
  intro before initial
  have once := distinct.edited before
  have same := undone before initial
  have name : ((graph.edited before).remove id).name = graph.name := by rw [same]
  exact ⟨once.nodes, once.roots, name, congrArg Graph.nodes same, congrArg Graph.links same,
    congrArg Graph.roots same⟩

end Graph

namespace Sample

def sine : Material :=
  (Graph.empty "Sine")
    |>.insert (.ofKind 1 (.constant (.scalar .one) none))
    |>.insertRoot (.ofKind 2 (.math .sin))
    |>.connect ⟨1, 0, 2, 0⟩

/-- A node that is put twice, marked twice, and linked to itself, to others and to nothing. -/
def detour : List (Edit (CallTarget Callable)) :=
  [.markRoot 7, .insert (.ofKind 7 (.math .abs)), .connect ⟨1, 0, 7, 0⟩, .connect ⟨7, 0, 7, 0⟩,
    .insertRoot (.ofKind 7 (.math .cos)), .connect ⟨7, 0, 2, 0⟩, .connect ⟨7, 0, 9, 0⟩]

theorem remove_undoes_detour : (sine.edited detour).remove 7 = sine :=
  (Graph.remove_undoes_edits ⟨by decide, by decide⟩ ⟨by decide, by decide, by decide⟩
    (by decide)).1

end Sample

end MaterialGraph
