import MaterialGraph.Library
import MaterialGraph.Proofs.Callable.Body

/-!
Which graphs a source makes callables of. A stored text calls the paths of its call nodes, and a
path makes a callable if all that its text calls does and the graph over these is a valid function.
This is said by what the texts hold alone: no library and no order of loading comes into it. Such a
path makes one callable only, and never calls itself.
-/

set_option autoImplicit false

namespace MaterialGraph

namespace Description

theorem mem_callPaths {description : Description} {path : String} :
    path ∈ description.callPaths ↔ ∃ entry ∈ description.nodes, entry.kind = .call path := by
  unfold callPaths
  rw [List.mem_filterMap]
  constructor
  · rintro ⟨entry, member, calls⟩
    refine ⟨entry, member, ?_⟩
    split at calls
    · rename_i called kind
      cases calls
      exact kind
    · cases calls
  · rintro ⟨entry, member, kind⟩
    exact ⟨entry, member, by rw [kind]⟩

theorem toNode_congr {resolve other : Resolver} {entry : Entry}
    (same : ∀ path, entry.kind = .call path → resolve path = other path) :
    entry.toNode resolve = entry.toNode other := by
  have kinds : entry.kind.map resolve = entry.kind.map other := by
    cases kind : entry.kind with
    | call path => rw [Kind.map, Kind.map, same path kind]
    | _ => rfl
  rw [Entry.toNode, Entry.toNode, kinds]

/-- The graph of a description depends on what its own calls stand for, and on no other path. -/
theorem toGraph_congr {resolve other : Resolver} {description : Description}
    (same : ∀ path ∈ description.callPaths, resolve path = other path) :
    description.toGraph resolve = description.toGraph other := by
  have entries : ∀ (entries : List Entry) (graph : Material),
      (∀ entry ∈ entries, entry.toNode resolve = entry.toNode other) →
      entries.foldlM (addEntry resolve) graph = entries.foldlM (addEntry other) graph := by
    intro entries
    induction entries with
    | nil => exact fun _ _ => rfl
    | cons entry rest induction =>
        intro graph nodes
        rw [List.forall_mem_cons] at nodes
        have first : addEntry resolve graph entry = addEntry other graph entry := by
          rw [addEntry, addEntry, nodes.1]
        rw [List.foldlM_cons, List.foldlM_cons, first]
        congr 1
        funext next
        exact induction next nodes.2
  have all : ∀ entry ∈ description.nodes, entry.toNode resolve = entry.toNode other :=
    fun entry member => toNode_congr fun path kind =>
      same path (mem_callPaths.2 ⟨entry, member, kind⟩)
  rw [toGraph, toGraph, entries _ _ all]

theorem applyDefaults_keeps (holds : MaterialNode → Prop)
    (each : ∀ node slot value, holds node → holds (node.withDefault slot value))
    {node made : MaterialNode} (start : holds node) {overrides : List Override}
    (applied : Entry.applyDefaults node overrides = .ok made) : holds made := by
  induction overrides generalizing node with
  | nil =>
      cases applied
      exact start
  | cons override rest induction =>
      unfold Entry.applyDefaults at applied
      split at applied
      · cases applied
      · exact induction (each node override.slot override.value start) applied

theorem kind_applyDefaults {node made : MaterialNode} {overrides : List Override}
    (applied : Entry.applyDefaults node overrides = .ok made) : made.kind = node.kind :=
  applyDefaults_keeps (fun other => other.kind = node.kind) (fun _ _ _ same => same) rfl applied

theorem kind_toNode {resolve : Resolver} {entry : Entry} {node : MaterialNode}
    (made : entry.toNode resolve = .ok node) : node.kind = entry.kind.map resolve := by
  unfold Entry.toNode at made
  rw [kind_applyDefaults made]
  cases entry.name <;> rfl

theorem exists_entry {resolve : Resolver} {description : Description} {graph : Material}
    (made : description.toGraph resolve = .ok graph) {node : MaterialNode}
    (member : node ∈ graph.nodes) :
    ∃ entry ∈ description.nodes, node.kind = entry.kind.map resolve := by
  unfold toGraph at made
  split at made
  · cases made
  rename_i filled ran
  cases made
  have all := foldlM_run
    (fun taken (graph : Material) => ∀ node ∈ graph.nodes, ∃ entry ∈ taken,
      node.kind = entry.kind.map resolve) ?_ [] (by simp [Graph.empty]) ran
  · exact all node member
  · intro taken graph entry next kinds added node listed
    unfold addEntry at added
    split at added
    · cases added
    split at added
    · cases added
    rename_i new made
    have nodes : next.nodes = Graph.putNode new graph.nodes := by
      cases added
      unfold Graph.insertRoot Graph.markRoot
      split
      · split <;> rfl
      · rfl
    rw [nodes] at listed
    rcases Graph.mem_putNode listed with same | old
    · exact ⟨entry, by simp, by rw [same, kind_toNode made]⟩
    · obtain ⟨earlier, known, kind⟩ := kinds node old
      exact ⟨earlier, List.mem_append_left _ known, kind⟩

end Description

namespace Callable

theorem path_of_ofGraph {path : String} {graph : Material} {policy : LinkPolicy}
    {callable : Callable} (made : ofGraph path graph policy = .ok callable) :
    callable.path = path := by
  obtain ⟨_, _, _, _, _, _, _, _, _, rfl⟩ := ofGraph_eq_ok_iff.1 made
  rfl

theorem exists_node_of_ofGraph {path : String} {graph : Material} {policy : LinkPolicy}
    {callable : Callable} (made : ofGraph path graph policy = .ok callable) {node : MaterialNode}
    (member : node ∈ callable.body.graph.nodes) : ∃ old ∈ graph.nodes, old.kind = node.kind := by
  obtain ⟨wired, _, _, _, wire, _, _, _, _, rfl⟩ := ofGraph_eq_ok_iff.1 made
  have wires := Graph.wires_of_wire wire
  have bare : node.unbind ∈ graph.nodes.map Node.unbind :=
    wires.nodes ▸ List.mem_map_of_mem member
  obtain ⟨old, listed, same⟩ := List.mem_map.1 bare
  exact ⟨old, listed, congrArg (fun node => node.kind) same⟩

end Callable

namespace Source

def fetch (source : Source) (path : String) : Except String String :=
  match source.texts.find? path with
  | some text => .ok text
  | none => .error (source.refusal path)

inductive Describes (source : Source) (path : String) (description : Description) : Prop where
  | intro (text : String) (stored : source.texts.find? path = some text)
      (parsed : Description.read text = .ok description)

def Calls (source : Source) (caller callee : String) : Prop :=
  ∃ description, source.Describes caller description ∧ callee ∈ description.callPaths

inductive Makes (source : Source) (policy : LinkPolicy) : String → Callable → Prop where
  | intro {path : String} {description : Description} {graph : Material} {callable : Callable}
      (callees : String → Callable) (describes : source.Describes path description)
      (inner : ∀ callee ∈ description.callPaths, Makes source policy callee (callees callee))
      (instantiates : description.toGraph (fun callee => .resolved (callees callee)) = .ok graph)
      (accepts : Callable.ofGraph path graph policy = .ok callable) :
      Makes source policy path callable

theorem describes_of_fetch {source : Source} {path text : String} {description : Description}
    (fetched : source.fetch path = .ok text) (parsed : Description.read text = .ok description) :
    source.Describes path description := by
  unfold fetch at fetched
  split at fetched
  · rename_i stored
    cases fetched
    exact ⟨text, stored, parsed⟩
  · cases fetched

theorem Describes.fetch {source : Source} {path : String} {description : Description}
    (describes : source.Describes path description) :
    ∃ text, source.fetch path = .ok text ∧ Description.read text = .ok description := by
  obtain ⟨text, stored, parsed⟩ := describes
  refine ⟨text, ?_, parsed⟩
  unfold Source.fetch
  rw [stored]

theorem Describes.unique {source : Source} {path : String} {description other : Description}
    (first : source.Describes path description) (second : source.Describes path other) :
    description = other := by
  obtain ⟨text, stored, parsed⟩ := first
  obtain ⟨otherText, otherStored, otherParsed⟩ := second
  cases stored.symm.trans otherStored
  cases parsed.symm.trans otherParsed
  rfl

theorem callers_append {source : Source} {chain : List String} {path callee : String}
    (callers : ∀ caller ∈ chain, Relation.TransGen source.Calls caller path)
    (calls : source.Calls path callee) :
    ∀ caller ∈ chain ++ [path], Relation.TransGen source.Calls caller callee := by
  intro caller listed
  rcases List.mem_append.1 listed with earlier | here
  · exact (callers caller earlier).tail calls
  · rw [List.mem_singleton.1 here]
    exact .single calls

namespace Makes

variable {source : Source} {policy : LinkPolicy} {path : String} {callable : Callable}

theorem path_eq (makes : source.Makes policy path callable) : callable.path = path := by
  cases makes with
  | intro _ _ _ _ accepts => exact Callable.path_of_ofGraph accepts

theorem unique (makes : source.Makes policy path callable) {other : Callable}
    (makesToo : source.Makes policy path other) : callable = other := by
  induction makes generalizing other with
  | intro callees describes _ instantiates accepts induction =>
      cases makesToo with
      | intro others describesToo innerToo instantiatesToo acceptsToo =>
          cases describes.unique describesToo
          have targets : ∀ callee ∈ _, CallTarget.resolved (callees callee) =
              CallTarget.resolved (others callee) := fun callee called => by
            rw [induction callee called (innerToo callee called)]
          have same := Description.toGraph_congr targets
          cases (instantiates.symm.trans same).trans instantiatesToo
          exact Except.ok.inj (accepts.symm.trans acceptsToo)

theorem of_calls (makes : source.Makes policy path callable) {callee : String}
    (calls : source.Calls path callee) : ∃ called, source.Makes policy callee called := by
  cases makes with
  | intro callees describes inner _ _ =>
      obtain ⟨description, describesToo, member⟩ := calls
      cases describes.unique describesToo
      exact ⟨callees callee, inner callee member⟩

theorem of_reaches (makes : source.Makes policy path callable) {other : String}
    (reaches : Relation.ReflTransGen source.Calls path other) :
    ∃ called, source.Makes policy other called := by
  induction reaches with
  | refl => exact ⟨callable, makes⟩
  | tail _ calls induction =>
      obtain ⟨called, makesCaller⟩ := induction
      exact makesCaller.of_calls calls

/-- Chains of calls from such a path come to an end. -/
theorem acc (makes : source.Makes policy path callable) :
    Acc (fun callee caller => source.Calls caller callee) path := by
  induction makes with
  | @intro path description _ _ _ describes _ _ _ induction =>
      refine Acc.intro path fun callee calls => ?_
      obtain ⟨again, describesToo, member⟩ := calls
      cases describes.unique describesToo
      exact induction callee member

theorem not_calls_itself (makes : source.Makes policy path callable) :
    ¬Relation.TransGen source.Calls path path := by
  intro loop
  have back : Relation.TransGen (fun callee caller => source.Calls caller callee) path path :=
    Relation.transGen_swap.2 loop
  have ends := makes.acc.transGen
  clear makes loop
  induction ends with
  | intro path _ induction => exact induction path back back

end Makes

end Source

end MaterialGraph
