import MaterialGraph.Proofs.Compile.Locality
import MaterialGraph.Proofs.Digest.Presentation
import MaterialGraph.Proofs.Graph.Edits

/-!
Dead nodes make no difference. A node that feeds no root can be removed with its links, however
they are: this may change what is accepted at other dead nodes, but into every node that feeds a
root the same links are accepted, in the same order. So each root has the same outcome, and the
graph has the same digest.
-/

set_option autoImplicit false

namespace MaterialGraph

variable {Target : Type}

namespace Graph

theorem agree_remove (graph : Graph Target) {removed : NodeId} {link : Link}
    (apart : link.touches removed = false) :
    graph.Agree (graph.remove removed) link.startNode ∧
      graph.Agree (graph.remove removed) link.endNode := by
  simp only [Link.touches, Bool.or_eq_false_iff, decide_eq_false_iff_not] at apart
  exact ⟨.of_eq (node?_remove graph apart.1).symm, .of_eq (node?_remove graph apart.2).symm⟩

def spared (removed : NodeId) (links : List Link) : List Link :=
  links.filter fun link => !link.touches removed

theorem spared_snoc (removed : NodeId) (taken : List Link) (link : Link) :
    spared removed (taken ++ [link]) =
      if link.touches removed then spared removed taken else spared removed taken ++ [link] := by
  unfold spared
  cases touches : link.touches removed <;> simp [touches]

variable [CallSite Target] {graph : Graph Target} {removed id : NodeId}

/-- After some links, the same of them feed the slots of a node whether another one is there or
not. -/
def Unmoved (graph : Graph Target) (removed id : NodeId) (taken : List Link) : Prop :=
  ∀ slot, graph.feeder? taken id slot =
    (graph.remove removed).feeder? (spared removed taken) id slot

namespace Unmoved

variable {taken : List Link} {link : Link}

theorem snoc_of_touches (unmoved : graph.Unmoved removed id taken)
    (touches : link.touches removed = true)
    (idle : graph.accepts taken link = true → link.endNode ≠ id) :
    graph.Unmoved removed id (taken ++ [link]) := by
  intro slot
  rw [spared_snoc, if_pos touches, ← unmoved]
  cases accepts : graph.accepts taken link with
  | false => exact feeder?_snoc_of_rejected accepts id slot
  | true => simp [feeder?_snoc, idle accepts]

theorem snoc_of_apart (unmoved : graph.Unmoved removed id taken)
    (apart : link.touches removed = false) : graph.Unmoved removed id (taken ++ [link]) := by
  obtain ⟨start, finish⟩ := graph.agree_remove apart
  intro slot
  rw [spared_snoc, apart, feeder?_snoc, unmoved, fits_congr start finish, ← feeder?_snoc]
  rfl

theorem accepts_eq (unmoved : graph.Unmoved removed id taken)
    (apart : link.touches removed = false) (here : link.endNode = id) :
    graph.accepts taken link = (graph.remove removed).accepts (spared removed taken) link := by
  obtain ⟨start, finish⟩ := graph.agree_remove apart
  rw [accepts, accepts, here, unmoved, touches_congr start finish, fits_congr start finish]

/-- Unless a link from the removed node is accepted there, the links into the node are wired as
they were, and are accepted in the same order. -/
theorem run (unmoved : graph.Unmoved removed id taken) (different : id ≠ removed)
    {links : List Link}
    (idle : ∀ link ∈ graph.acceptedAfter taken links, link.startNode = removed →
      link.endNode ≠ id) :
    graph.Unmoved removed id (taken ++ links) ∧
      (graph.acceptedAfter taken links).filter (fun link => link.endNode = id) =
        ((graph.remove removed).acceptedAfter (spared removed taken)
          (spared removed links)).filter fun link => link.endNode = id := by
  induction links generalizing taken with
  | nil => exact ⟨by simpa using unmoved, rfl⟩
  | cons link rest induction =>
      rw [acceptedAfter, List.forall_mem_append] at idle
      obtain ⟨idleHere, idleLater⟩ := idle
      rw [acceptedAfter, List.filter_append, List.append_cons]
      cases touches : link.touches removed with
      | true =>
          have elsewhere : graph.accepts taken link = true → link.endNode ≠ id := by
            intro accepts here
            have starts : link.startNode = removed := by
              simpa [Link.touches, here, different] using touches
            exact idleHere link (by simp [accepts]) starts here
          have skipped : (if graph.accepts taken link then [link] else []).filter
              (fun link => link.endNode = id) = [] := by
            cases accepts : graph.accepts taken link with
            | false => rfl
            | true => simp [elsewhere accepts]
          have spares : spared removed (link :: rest) = spared removed rest :=
            List.filter_cons_of_neg (by simp [touches])
          obtain ⟨unmovedLater, later⟩ :=
            induction (unmoved.snoc_of_touches touches elsewhere) idleLater
          rw [spared_snoc, if_pos touches] at later
          exact ⟨unmovedLater, by rw [skipped, later, spares, List.nil_append]⟩
      | false =>
          have first : (if graph.accepts taken link then [link] else []).filter
                (fun link => link.endNode = id) =
              (if (graph.remove removed).accepts (spared removed taken) link then [link]
                else []).filter fun link => link.endNode = id := by
            by_cases here : link.endNode = id
            · rw [unmoved.accepts_eq touches here]
            · split <;> split <;> simp [here]
          have spares : spared removed (link :: rest) = link :: spared removed rest :=
            List.filter_cons_of_pos (by simp [touches])
          obtain ⟨unmovedLater, later⟩ := induction (unmoved.snoc_of_apart touches) idleLater
          rw [spared_snoc, if_neg (by simp [touches])] at later
          exact ⟨unmovedLater, by
            rw [first, later, spares, acceptedAfter, List.filter_append]⟩

end Unmoved

end Graph

namespace Wired

variable {graph : Material} {wired after : WiredMaterial} {removed : NodeId}

/-- The nodes that feed a root are the same, with the same links into them, whether a node that
feeds none is there or not. -/
theorem sameOn_remove (wire : graph.wire .lenient = .ok wired)
    (wireAfter : (graph.remove removed).wire .lenient = .ok after) (dead : graph.Dead removed) :
    SameOn (wired.Feeds graph.roots) wired after := by
  obtain ⟨_, wireToo, feeding⟩ := graph.wire_lenient
  cases wire.symm.trans wireToo
  obtain ⟨_, wireAfterToo, feedingAfter⟩ := (graph.remove removed).wire_lenient
  cases wireAfter.symm.trans wireAfterToo
  have different : ∀ id, wired.Feeds graph.roots id → id ≠ removed :=
    fun id feeds same => dead wired wire (same ▸ feeds)
  have unmoved : ∀ id, wired.Feeds graph.roots id →
      graph.Unmoved removed id graph.links ∧
        wired.accepted.filter (fun link => link.endNode = id) =
          after.accepted.filter fun link => link.endNode = id := by
    intro id feeds
    rw [Graph.accepted_of_wire wire, Graph.accepted_of_wire wireAfter]
    have start : graph.Unmoved removed id [] := fun slot => rfl
    refine start.run (different id feeds) ?_
    intro link accepted starts ends
    rw [← Graph.accepted_of_wire wire] at accepted
    have leads : wired.Leads removed id := ⟨link, accepted, starts, ends⟩
    exact dead wired wire (feeds.of_leads leads)
  refine ⟨⟨?_, ?_⟩, ?_, ?_⟩
  · intro id feeds
    rw [incoming, incoming, (unmoved id feeds).2]
  · intro id feeds producer listed
    exact feeds.of_leads (mem_incoming.1 listed)
  · intro id feeds
    obtain ⟨node, found⟩ := feeding.exists_node_of_feeds feeds
    have given : graph.given graph.links id =
        (graph.remove removed).given (graph.remove removed).links id := by
      funext slot
      exact congrArg (Option.map Link.binding) ((unmoved id feeds).1 slot)
    refine ⟨_, node.name, by rw [feeding.nodes, found]; rfl, ?_⟩
    rw [feedingAfter.nodes, Graph.node?_remove graph (different id feeds), found, given]
    rfl
  · intro id _ node found input listed binding bound
    obtain ⟨stored, named⟩ := Graph.mem_of_node? found
    exact named ▸ (Graph.wires_of_wire wire).leads node stored input listed binding bound

theorem SameOn.fingerprint_eq {inside : NodeId → Prop} (same : SameOn inside wired after)
    {roots : List NodeId}
    (known : ∀ root ∈ roots, wired.graph.contains root = after.graph.contains root)
    (among : ∀ root ∈ roots, wired.graph.contains root = true → inside root) :
    wired.fingerprint roots = after.fingerprint roots := by
  have reached := same.links.reachable_eq known among
  have records : SameRecords wired after roots roots := by
    refine ⟨fun id => by rw [reached], ?_⟩
    intro id member
    obtain ⟨node, name, found, foundToo⟩ :=
      same.nodes id (same.links.inside_of_feeds among (mem_reachable.1 member))
    exact ⟨node, node.withName name, found, foundToo, Iff.rfl, rfl, rfl, rfl⟩
  rw [fingerprint, stream, records.records_eq, fingerprint, stream]

theorem SameOn.compileRoots_eq {inside : NodeId → Prop} (same : SameOn inside wired after)
    (policy : ErrorPolicy) {roots : List NodeId}
    (known : ∀ root ∈ roots, wired.graph.contains root = after.graph.contains root)
    (among : ∀ root ∈ roots, wired.graph.contains root = true → inside root)
    (shared : Parameters) :
    wired.compileRoots policy shared roots = after.compileRoots policy shared roots := by
  induction roots generalizing shared with
  | nil => rfl
  | cons root rest induction =>
      rw [List.forall_mem_cons] at known among
      have later := induction known.2 among.2
      simp only [compileRoots, same.compileRoot_eq policy known.1 among.1, later]

end Wired

/-- Compiled leniently, a graph has the same digest and the same outcome of every root, be it what
it compiles to or the error, as without a node that is no root and feeds none. -/
theorem Settings.compile_remove_dead {settings : Settings}
    (lenient : settings.linkPolicy = .lenient) {graph : Material} {removed : NodeId}
    (notRoot : removed ∉ graph.roots) (dead : graph.Dead removed) :
    ∃ compiled after, settings.compile graph = .ok compiled ∧
      settings.compile (graph.remove removed) = .ok after ∧
      compiled.digest = after.digest ∧ compiled.outcomes = after.outcomes := by
  obtain ⟨wired, wire, feeding⟩ := graph.wire_lenient
  obtain ⟨afterWired, wireAfter, feedingAfter⟩ := (graph.remove removed).wire_lenient
  have same := Wired.sameOn_remove wire wireAfter dead
  have known : ∀ root ∈ graph.roots,
      wired.graph.contains root = afterWired.graph.contains root := by
    intro root listed
    have different : root ≠ removed := fun same => notRoot (same ▸ listed)
    rw [feeding.contains_eq, feedingAfter.contains_eq, graph.contains_remove different]
  have among : ∀ root ∈ graph.roots, wired.graph.contains root = true →
      wired.Feeds graph.roots root :=
    fun root listed present => ⟨root, listed, present, Relation.ReflTransGen.refl⟩
  unfold Settings.compile
  rw [lenient, wire, wireAfter, graph.roots_remove notRoot]
  exact ⟨_, _, rfl, rfl, same.fingerprint_eq known among,
    same.compileRoots_eq settings.errorPolicy known among []⟩

theorem Settings.compile_remove_dead_padded :
    ∃ compiled after, (default : Settings).compile Sample.padded = .ok compiled ∧
      (default : Settings).compile (Sample.padded.remove 7) = .ok after ∧
      compiled.digest = after.digest ∧ compiled.outcomes = after.outcomes :=
  Settings.compile_remove_dead rfl (by decide) Sample.padded_dead

end MaterialGraph
