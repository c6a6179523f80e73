import MaterialGraph.Proofs.Compile.Parameters
import MaterialGraph.Proofs.Graph.Locality
import MaterialGraph.Proofs.Lowering.Locality

/-!
Compilation is local. Two graphs that agree on the nodes that feed their roots, and on the order of
the links into these, compile the same roots to the same expressions, and fail the others with the
same errors but for the reasons why calls could not be resolved. The names of nodes, and all other
nodes and links, make no difference.
-/

set_option autoImplicit false

namespace MaterialGraph

/-- Nodes that differ in their names at most, or two calls that could not be resolved. -/
def Node.Alike (left right : MaterialNode) : Prop :=
  (∃ name, right = left.withName name) ∨
    (left.kind.isUnresolvedCall = true ∧ right.kind.isUnresolvedCall = true)

namespace Wired

structure AgreeOn (inside : NodeId → Prop) (left right : WiredMaterial) : Prop where
  links : SameLinks inside left right
  nodes : ∀ id, inside id → ∃ node other, left.node? id = some node ∧
    right.node? id = some other ∧ node.Alike other

theorem AgreeOn.symm {inside : NodeId → Prop} {left right : WiredMaterial}
    (agree : AgreeOn inside left right) : AgreeOn inside right left := by
  refine ⟨⟨?_, ?_⟩, ?_⟩
  · intro id among
    exact (agree.links.incoming id among).symm
  · intro id among
    rw [← agree.links.incoming id among]
    exact agree.links.closed id among
  · intro id among
    obtain ⟨node, other, found, foundToo, alike⟩ := agree.nodes id among
    refine ⟨other, node, foundToo, found, ?_⟩
    rcases alike with ⟨name, rfl⟩ | ⟨unresolved, unresolvedToo⟩
    · exact Or.inl ⟨node.name, rfl⟩
    · exact Or.inr ⟨unresolvedToo, unresolved⟩

variable {inside : NodeId → Prop} {left right : WiredMaterial}

theorem AgreeOn.named (agree : AgreeOn inside left right) {id : NodeId} (among : inside id)
    (resolved : ∀ node, left.node? id = some node → node.kind.isUnresolvedCall = false) :
    ∃ node name, left.node? id = some node ∧ right.node? id = some (node.withName name) := by
  obtain ⟨node, other, found, foundToo, alike⟩ := agree.nodes id among
  rcases alike with ⟨name, rfl⟩ | ⟨unresolved, _⟩
  · exact ⟨node, name, found, foundToo⟩
  · cases (resolved node found).symm.trans unresolved

theorem checkAll_eq {ids : List NodeId}
    (nodes : ∀ id ∈ ids, ∃ node name, left.node? id = some node ∧
      right.node? id = some (node.withName name)) (stopAtFirst : Bool) (table : TypeTable) :
    Typing.checkAll left stopAtFirst ids table = Typing.checkAll right stopAtFirst ids table := by
  induction ids generalizing table with
  | nil => rfl
  | cons id rest induction =>
      rw [List.forall_mem_cons] at nodes
      obtain ⟨node, name, found, foundToo⟩ := nodes.1
      have same : Typing.check left table id = Typing.check right table id := by
        simp only [Typing.check, found, foundToo]
        rfl
      have later := induction nodes.2
      simp only [Typing.checkAll, same, later]

/-- Two graphs have the same links into the nodes of a set, and the same nodes there but for their
names; what a slot of these is bound to is linked to it. -/
structure SameOn (inside : NodeId → Prop) (left right : WiredMaterial) : Prop where
  links : SameLinks inside left right
  nodes : ∀ id, inside id → ∃ node name, left.node? id = some node ∧
    right.node? id = some (node.withName name)
  bound : ∀ id, inside id → ∀ node, left.node? id = some node → ∀ input ∈ node.inputs,
    ∀ binding, input.binding = some binding → left.Leads binding.node id

theorem unresolvedCall?_eq {ids : List NodeId}
    (nodes : ∀ id ∈ ids, ∃ node name, left.node? id = some node ∧
      right.node? id = some (node.withName name)) :
    left.unresolvedCall? ids = right.unresolvedCall? ids := by
  induction ids with
  | nil => rfl
  | cons id rest induction =>
      rw [List.forall_mem_cons] at nodes
      obtain ⟨⟨_, _, kind, _, _⟩, name, found, foundToo⟩ := nodes.1
      have later := induction nodes.2
      unfold unresolvedCall? at later ⊢
      simp only [List.findSome?_cons, found, foundToo, later]
      cases kind with
      | call target => cases target <;> rfl
      | _ => rfl

/-- A root has the same outcome in both graphs: it compiles to the same, or fails with the same
error. -/
theorem SameOn.compileRoot_eq (same : SameOn inside left right) (policy : ErrorPolicy)
    {root : NodeId} (known : left.graph.contains root = right.graph.contains root)
    (among : left.graph.contains root = true → inside root) :
    left.compileRoot policy root = right.compileRoot policy root := by
  unfold compileRoot
  rw [← known]
  cases present : left.graph.contains root with
  | false => rfl
  | true =>
      have amongAll : ∀ other ∈ [root], left.graph.contains other = true → inside other := by
        simpa using among
      rw [← same.links.schedule_eq (by simpa using known) amongAll]
      cases scheduled : left.schedule [root] with
      | error cycle => rfl
      | ok schedule =>
          have fed : ∀ id ∈ schedule.order, inside id :=
            fun id member => same.links.inside_of_feeds amongAll ((mem_order scheduled).1 member)
          have nodes : ∀ id ∈ schedule.order, ∃ node name, left.node? id = some node ∧
              right.node? id = some (node.withName name) :=
            fun id member => same.nodes id (fed id member)
          have atRoot : root ∈ schedule.order := (mem_order scheduled).2
            ⟨root, List.mem_singleton_self root, present, Relation.ReflTransGen.refl⟩
          have lowered : ∀ types, left.lowerRoot schedule types root =
              right.lowerRoot schedule types root := by
            intro types
            have alike : Lowering.Alike schedule.order (.top left types) (.top right types) := by
              refine ⟨rfl, rfl, rfl, nodup_order scheduled, nodes, ?_⟩
              intro id member node found input listed binding bound
              exact idxOf_lt_idxOf_of_leads scheduled
                (same.bound id (fed id member) node found input listed binding bound)
                ((mem_order scheduled).1 member)
            exact lowerRoot_eq alike atRoot
          simp only [unresolvedCall?_eq nodes, checkAll_eq nodes, lowered]

theorem AgreeOn.compileRoot_eq_ok (agree : AgreeOn inside left right) (coherent : left.Coherent)
    {policy : ErrorPolicy} {root : NodeId}
    (known : left.graph.contains root = right.graph.contains root)
    (among : left.graph.contains root = true → inside root) {compiled : CompiledRoot}
    (ok : left.compileRoot policy root = .ok compiled) :
    right.compileRoot policy root = .ok compiled := by
  obtain ⟨present, _, scheduled, resolved, _⟩ := compileRoot_eq_ok_iff.1 ok
  have amongAll : ∀ other ∈ [root], left.graph.contains other = true → inside other := by
    simpa using among
  have fed : ∀ id ∈ compiled.schedule.order, inside id :=
    fun id member => agree.links.inside_of_feeds amongAll ((mem_order scheduled).1 member)
  -- No scheduled node is an unresolved call, so that on these the graphs are the same.
  have same : SameOn (· ∈ compiled.schedule.order) left right := by
    refine ⟨⟨?_, ?_⟩, ?_, ?_⟩
    · exact fun id member => agree.links.incoming id (fed id member)
    · intro id member producer listed
      exact (mem_order scheduled).2
        (((mem_order scheduled).1 member).of_leads (mem_incoming.1 listed))
    · intro id member
      exact agree.named (fed id member) (unresolvedCall?_eq_none_iff.1 resolved id member)
    · intro id _ node found input listed binding bound
      exact coherent.leads found listed bound
  have atRoot : root ∈ compiled.schedule.order := (mem_order scheduled).2
    ⟨root, List.mem_singleton_self root, present, Relation.ReflTransGen.refl⟩
  rw [← same.compileRoot_eq policy known fun _ => atRoot]
  exact ok

theorem AgreeOn.compileRoot_toOption (agree : AgreeOn inside left right)
    (coherent : left.Coherent) (coherentToo : right.Coherent) (policy : ErrorPolicy)
    {root : NodeId} (known : left.graph.contains root = right.graph.contains root)
    (among : left.graph.contains root = true → inside root) :
    (left.compileRoot policy root).toOption = (right.compileRoot policy root).toOption := by
  cases ok : left.compileRoot policy root with
  | ok compiled =>
      rw [agree.compileRoot_eq_ok coherent known among ok]
  | error error =>
      cases okToo : right.compileRoot policy root with
      | error other => rfl
      | ok compiled =>
          have amongToo : right.graph.contains root = true → inside root := known ▸ among
          have back :=
            agree.symm.compileRoot_eq_ok coherentToo known.symm amongToo okToo
          cases ok.symm.trans back

theorem map_root_compileRoots (wired : WiredMaterial) (policy : ErrorPolicy) (shared : Parameters)
    (roots : List NodeId) :
    (wired.compileRoots policy shared roots).map RootOutcome.root = roots := by
  induction roots generalizing shared with
  | nil => rfl
  | cons root rest induction =>
      unfold compileRoots
      split
      · exact congrArg (root :: ·) (induction shared)
      · split
        · exact congrArg (root :: ·) (induction shared)
        · rename_i merged _
          exact congrArg (root :: ·) (induction merged)

def compiledRoots (wired : WiredMaterial) (policy : ErrorPolicy) (shared : Parameters)
    (roots : List NodeId) : List CompiledRoot :=
  (wired.compileRoots policy shared roots).filterMap fun entry => entry.outcome.toOption

/-- Graphs that agree on what feeds some roots compile the same ones, to the same. -/
theorem AgreeOn.compiledRoots_eq (agree : AgreeOn inside left right) (coherent : left.Coherent)
    (coherentToo : right.Coherent) (policy : ErrorPolicy) {roots : List NodeId}
    (known : ∀ root ∈ roots, left.graph.contains root = right.graph.contains root)
    (among : ∀ root ∈ roots, left.graph.contains root = true → inside root)
    (shared : Parameters) :
    left.compiledRoots policy shared roots = right.compiledRoots policy shared roots := by
  induction roots generalizing shared with
  | nil => rfl
  | cons root rest induction =>
      rw [List.forall_mem_cons] at known among
      have same := agree.compileRoot_toOption coherent coherentToo policy known.1 among.1
      have later := induction known.2 among.2
      unfold compiledRoots at later ⊢
      cases ok : left.compileRoot policy root with
      | error error =>
          cases okToo : right.compileRoot policy root with
          | ok compiled =>
              rw [ok, okToo] at same
              cases same
          | error other =>
              simp only [compileRoots, ok, okToo]
              exact later shared
      | ok compiled =>
          have okToo := agree.compileRoot_eq_ok coherent known.1 among.1 ok
          simp only [compileRoots, ok, okToo]
          cases shared.merge compiled.parameters with
          | error conflict => exact later shared
          | ok merged => exact congrArg (compiled :: ·) (later merged)

end Wired

theorem CompiledGraph.mem_roots_of_mem {settings : Settings} {graph : Material}
    {compiled : CompiledGraph} (ok : settings.compile graph = .ok compiled) {root : CompiledRoot}
    (member : root ∈ compiled.compiledRoots) : root.root ∈ graph.roots := by
  obtain ⟨wired, _, rfl⟩ := compile_eq_ok ok
  obtain ⟨entry, listed, outcome⟩ := mem_compiledRoots member
  have alone := Wired.compileRoot_of_mem listed outcome
  rw [(Wired.compileRoot_eq_ok_iff.1 alone).2.1,
    ← wired.map_root_compileRoots settings.errorPolicy [] graph.roots]
  exact List.mem_map_of_mem listed

end MaterialGraph
