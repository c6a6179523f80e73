import MaterialGraph.Compile.Basic
import MaterialGraph.Proofs.Digest.Stream
import MaterialGraph.Proofs.Graph.Feeding
import Mathlib.Data.List.Pairwise

/-!
What the digest of a graph does not depend on: names, the order in which nodes, roots and
uncontested links are stored, and the parts that feed no root. All of these leave alone, for every
node that feeds a root, its properties, the link that feeds each of its slots and the unresolved
calls it is linked to.
-/

set_option autoImplicit false

namespace MaterialGraph

namespace Wired

/-- Graphs whose records say the same have the same records, for these are sorted. -/
theorem SameRecords.records_eq {left right : WiredMaterial} {leftRoots rightRoots : List NodeId}
    (same : SameRecords left right leftRoots rightRoots) :
    left.records leftRoots = right.records rightRoots := by
  have ids : ascending (left.reachable leftRoots) = ascending (right.reachable rightRoots) := by
    apply eq_of_ascending (pairwise_ascending (nodup_reachable left leftRoots))
      (pairwise_ascending (nodup_reachable right rightRoots))
    intro id
    rw [mem_ascending, mem_ascending, same.reachable]
  unfold records
  rw [List.map_filterMap, List.map_filterMap, ← ids]
  apply List.filterMap_congr
  intro id member
  obtain ⟨leftNode, rightNode, foundLeft, foundRight, roots, kinds, callees, inputs⟩ :=
    same.nodes id (mem_ascending.1 member)
  have flags : leftRoots.contains id = rightRoots.contains id := by
    rw [Bool.eq_iff_iff, List.contains_iff_mem, List.contains_iff_mem, roots]
  rw [foundLeft, foundRight, Option.map_some, Option.map_some, nodeRecord, nodeRecord,
    (Graph.mem_of_node? foundLeft).2, (Graph.mem_of_node? foundRight).2, flags, kinds, callees,
    inputs]

end Wired

namespace Node

variable {Target : Type}

def anonymous (node : Node Target) : Node Target := node.withName ""

end Node

namespace Graph

variable {Target : Type}

def Agree (left right : Graph Target) (id : NodeId) : Prop :=
  (left.node? id).map Node.anonymous = (right.node? id).map Node.anonymous

theorem Agree.cases {left right : Graph Target} {id : NodeId} (agree : left.Agree right id) :
    (left.node? id = none ∧ right.node? id = none) ∨
      ∃ leftNode rightNode, left.node? id = some leftNode ∧ right.node? id = some rightNode ∧
        leftNode.kind = rightNode.kind ∧ leftNode.inputs = rightNode.inputs ∧
        leftNode.outputs = rightNode.outputs := by
  unfold Agree at agree
  cases atLeft : left.node? id with
  | none =>
      rw [atLeft, Option.map_none] at agree
      exact Or.inl ⟨rfl, Option.map_eq_none_iff.1 agree.symm⟩
  | some leftNode =>
      rw [atLeft, Option.map_some] at agree
      obtain ⟨rightNode, atRight, same⟩ := Option.map_eq_some_iff.1 agree.symm
      obtain ⟨_, _, kinds, inputs, outputs⟩ := Node.mk.injEq .. ▸ same
      exact Or.inr ⟨leftNode, rightNode, rfl, atRight, kinds.symm, inputs.symm, outputs.symm⟩

theorem Agree.of_eq {left right : Graph Target} {id : NodeId}
    (same : left.node? id = right.node? id) : left.Agree right id :=
  congrArg (Option.map Node.anonymous) same

theorem agree_renameNode (graph : Graph Target) (id : NodeId) (name : String) (sought : NodeId) :
    graph.Agree { graph with nodes := updateNode id (fun node => node.withName name) graph.nodes }
      sought := by
  have keeps : ∀ node : Node Target, (node.withName name).id = node.id := fun _ => rfl
  unfold Agree node?
  rw [updateNode, find?_updateFirst keeps, Option.map_map]
  congr 1
  funext node
  rw [Function.comp_apply]
  split <;> rfl

theorem node?_of_mem {graph : Graph Target} (distinct : graph.ids.Nodup) {node : Node Target}
    (member : node ∈ graph.nodes) : graph.node? node.id = some node :=
  find?_key_of_mem distinct member

theorem node?_of_perm {graph : Graph Target} (distinct : graph.ids.Nodup)
    {nodes : List (Node Target)} (order : graph.nodes.Perm nodes) (id : NodeId) :
    graph.node? id = Graph.node? { graph with nodes } id := by
  have distinctAfter : Graph.ids { graph with nodes } |>.Nodup :=
    (order.map Node.id).nodup_iff.1 distinct
  cases found : Graph.node? { graph with nodes } id with
  | some node =>
      obtain ⟨member, rfl⟩ := mem_of_node? found
      exact node?_of_mem distinct (order.mem_iff.2 member)
  | none =>
      apply List.find?_eq_none.2
      intro node member
      exact List.find?_eq_none.1 found node (order.mem_iff.1 member)

variable [CallSite Target] {left right : Graph Target}

theorem touches_congr {link : Link} (start : left.Agree right link.startNode)
    (finish : left.Agree right link.endNode) :
    Wired.touchesUnresolved left link = Wired.touchesUnresolved right link := by
  unfold Wired.touchesUnresolved
  rcases start.cases with ⟨atLeft, atRight⟩ | ⟨producer, other, atLeft, atRight, kinds, _⟩
  · rw [atLeft, atRight]
  · rcases finish.cases with ⟨endLeft, endRight⟩ | ⟨consumer, second, endLeft, endRight, same, _⟩
    · rw [atLeft, atRight, endLeft, endRight]
    · rw [atLeft, atRight, endLeft, endRight]
      show (producer.kind.isUnresolvedCall || consumer.kind.isUnresolvedCall) =
        (other.kind.isUnresolvedCall || second.kind.isUnresolvedCall)
      rw [kinds, same]

theorem fits_congr {link : Link} (start : left.Agree right link.startNode)
    (finish : left.Agree right link.endNode) : left.fits link = right.fits link := by
  have outputs : (left.node? link.startNode).any
        (fun producer => (producer.output? link.startSlot).isSome) =
      (right.node? link.startNode).any
        fun producer => (producer.output? link.startSlot).isSome := by
    rcases start.cases with ⟨atLeft, atRight⟩ | ⟨_, _, atLeft, atRight, _, _, same⟩
    · rw [atLeft, atRight]
    · rw [atLeft, atRight, Option.any_some, Option.any_some, Node.output?, Node.output?, same]
  have inputs : (left.node? link.endNode).any
        (fun consumer => (consumer.input? link.endSlot).isSome) =
      (right.node? link.endNode).any
        fun consumer => (consumer.input? link.endSlot).isSome := by
    rcases finish.cases with ⟨atLeft, atRight⟩ | ⟨_, _, atLeft, atRight, _, same, _⟩
    · rw [atLeft, atRight]
    · rw [atLeft, atRight, Option.any_some, Option.any_some, Node.input?, Node.input?, same]
  rw [fits, fits, touches_congr start finish, outputs, inputs]

/-- Two graphs have the same roots and are the same at the nodes of a set that are alive: they give
such a node the same properties, feed its slots by the same links, and link the same unresolved
calls to it. -/
structure Alike (alive : NodeId → Prop) (left right : Graph Target) : Prop where
  roots : ∀ id, id ∈ left.roots ↔ id ∈ right.roots
  known : ∀ root ∈ left.roots, left.contains root = true → right.contains root = true
  nodes : ∀ id, alive id → left.Agree right id
  feeders : ∀ id, alive id → ∀ slot,
    left.feeder? left.links id slot = right.feeder? right.links id slot
  bridges : ∀ link, alive link.endNode →
    (link ∈ left.links ∧ Wired.touchesUnresolved left link = true ↔
      link ∈ right.links ∧ Wired.touchesUnresolved right link = true)

namespace Alike

variable {leftWired rightWired : Wired Target}

theorem leads_iff {alive : NodeId → Prop} (alike : Alike alive left right)
    (leftFeeding : leftWired.Feeding left left.links)
    (rightFeeding : rightWired.Feeding right right.links) {producer consumer : NodeId}
    (lives : alive consumer) :
    leftWired.Leads producer consumer ↔ rightWired.Leads producer consumer := by
  rw [leftFeeding.leads_iff, rightFeeding.leads_iff]
  constructor
  · rintro ⟨link, member, starts, rfl, touches | first⟩
    · obtain ⟨member, touches⟩ := (alike.bridges link lives).1 ⟨member, touches⟩
      exact ⟨link, member, starts, rfl, Or.inl touches⟩
    · rw [alike.feeders _ lives] at first
      exact ⟨link, (feeder?_eq_some first).1, starts, rfl, Or.inr first⟩
  · rintro ⟨link, member, starts, rfl, touches | first⟩
    · obtain ⟨member, touches⟩ := (alike.bridges link lives).2 ⟨member, touches⟩
      exact ⟨link, member, starts, rfl, Or.inl touches⟩
    · rw [← alike.feeders _ lives] at first
      exact ⟨link, (feeder?_eq_some first).1, starts, rfl, Or.inr first⟩

theorem feeds_iff (alike : Alike (rightWired.Feeds right.roots) left right)
    (leftFeeding : leftWired.Feeding left left.links)
    (rightFeeding : rightWired.Feeding right right.links) (id : NodeId) :
    leftWired.Feeds left.roots id ↔ rightWired.Feeds right.roots id := by
  -- Both ways along the path, from the root: what feeds a living node lives.
  constructor
  · rintro ⟨root, member, known, path⟩
    rw [leftFeeding.contains_eq] at known
    have start : rightWired.Feeds right.roots root := by
      refine ⟨root, (alike.roots root).1 member, ?_, Relation.ReflTransGen.refl⟩
      rw [rightFeeding.contains_eq]
      exact alike.known root member known
    induction path using Relation.ReflTransGen.head_induction_on with
    | refl => exact start
    | head leads _ induction =>
        exact induction.of_leads ((alike.leads_iff leftFeeding rightFeeding induction).1 leads)
  · rintro ⟨root, member, known, path⟩
    have start : rightWired.Feeds right.roots root :=
      ⟨root, member, known, Relation.ReflTransGen.refl⟩
    have present : leftWired.Feeds left.roots root := by
      refine ⟨root, (alike.roots root).2 member, ?_, Relation.ReflTransGen.refl⟩
      rw [rightFeeding.contains_eq] at known
      rw [leftFeeding.contains_eq]
      rcases (alike.nodes root start).cases with ⟨_, absent⟩ | ⟨node, _, found, _⟩
      · rw [contains, absent] at known
        cases known
      · exact contains_iff.2 ⟨node, found⟩
    induction path using Relation.ReflTransGen.head_induction_on with
    | refl => exact present
    | head leads rest induction =>
        have lives := start.of_path rest
        exact induction.of_leads ((alike.leads_iff leftFeeding rightFeeding lives).2 leads)

end Alike

end Graph

theorem Graph.Alike.fingerprint_eq {left right : Material} {leftWired rightWired : WiredMaterial}
    (alike : Graph.Alike (rightWired.Feeds right.roots) left right)
    (leftFeeding : leftWired.Feeding left left.links)
    (rightFeeding : rightWired.Feeding right right.links) :
    leftWired.fingerprint left.roots = rightWired.fingerprint right.roots := by
  have same : Wired.SameRecords leftWired rightWired left.roots right.roots := by
    refine ⟨?_, ?_⟩
    · intro id
      rw [Wired.mem_reachable, Wired.mem_reachable]
      exact alike.feeds_iff leftFeeding rightFeeding id
    · intro id member
      have lives := (alike.feeds_iff leftFeeding rightFeeding id).1 (Wired.mem_reachable.1 member)
      obtain ⟨rightNode, found⟩ := rightFeeding.exists_node_of_feeds lives
      rcases (alike.nodes id lives).cases with
        ⟨_, absent⟩ | ⟨leftNode, rightNode, atLeft, atRight, kinds, inputs, _⟩
      · rw [absent] at found
        cases found
      · have given : left.given left.links id = right.given right.links id := by
          funext slot
          rw [Graph.given, Graph.given, alike.feeders id lives]
        refine ⟨_, _, by rw [leftFeeding.nodes, atLeft]; rfl,
          by rw [rightFeeding.nodes, atRight]; rfl, alike.roots id, ?_, ?_, ?_⟩
        · show leftNode.kind.map CallSite.path = rightNode.kind.map CallSite.path
          rw [kinds]
        · show Wired.calleeDigest leftNode.kind = Wired.calleeDigest rightNode.kind
          rw [kinds]
        · show (InputSlot.feed _ leftNode.inputs).map Wired.inputRecord =
            (InputSlot.feed _ rightNode.inputs).map Wired.inputRecord
          rw [inputs, given]
  unfold Wired.fingerprint Wired.stream
  rw [same.records_eq]

namespace Graph

variable {Target : Type} [CallSite Target]

/-- A node that neither is nor feeds a root once the graph is wired. -/
def Dead (graph : Graph Target) (id : NodeId) : Prop :=
  ∀ wired, graph.wire .lenient = .ok wired → ¬wired.Feeds graph.roots id

def Drops (graph : Graph Target) (before : List Link) (link : Link) : Prop :=
  ∃ wired fault, before.foldlM (Wired.addLinkUnder .lenient) (Wired.bare graph) = .ok wired ∧
    wired.addLink link = .error fault

/-- Links among which others were put, behind those of a list. In the graph they end up in, the
added ones are dropped or lead to dead nodes. -/
inductive Interspersed (graph : Graph Target) : List Link → List Link → List Link → Prop where
  | nil (before : List Link) : Interspersed graph before [] []
  | kept {before old new : List Link} (link : Link)
      (rest : Interspersed graph (before ++ [link]) old new) :
      Interspersed graph before (link :: old) (link :: new)
  | added {before old new : List Link} (link : Link)
      (idle : graph.Drops before link ∨ graph.Dead link.endNode)
      (rest : Interspersed graph (before ++ [link]) old new) :
      Interspersed graph before old (link :: new)

structure Pads (graph other : Graph Target) : Prop where
  distinct : other.ids.Nodup
  roots : other.roots = graph.roots
  nodes : graph.nodes.Sublist other.nodes
  dead : ∀ node ∈ other.nodes, node ∉ graph.nodes → other.Dead node.id
  links : other.Interspersed [] graph.links other.links

def Binds (graph : Graph Target) (link : Link) : Prop :=
  Wired.touchesUnresolved graph link = false ∧
    ∃ after, Wired.bindLink (Wired.bare graph).graph link = .ok after

/-- No slot is the end of two links that would each bind it. -/
def Uncontested (graph : Graph Target) : Prop :=
  graph.links.Pairwise fun first second =>
    ¬(graph.Binds first ∧ graph.Binds second ∧ first.endNode = second.endNode ∧
      first.endSlot = second.endSlot)

inductive Redrawn : Graph Target → Graph Target → Prop where
  | rename (graph : Graph Target) (name : String) : Redrawn graph (graph.rename name)
  | renameNode (graph : Graph Target) (id : NodeId) (name : String) :
      Redrawn graph
        { graph with nodes := updateNode id (fun node => node.withName name) graph.nodes }
  | nodes (graph : Graph Target) {nodes : List (Node Target)} (order : graph.nodes.Perm nodes) :
      Redrawn graph { graph with nodes }
  | roots (graph : Graph Target) {roots : List NodeId} (order : graph.roots.Perm roots) :
      Redrawn graph { graph with roots }
  | links (graph : Graph Target) {links : List Link} (order : graph.links.Perm links)
      (uncontested : graph.Uncontested) : Redrawn graph { graph with links }
  | pad {graph other : Graph Target} (pads : graph.Pads other) : Redrawn graph other

variable {graph other : Graph Target}

theorem binds_iff {link : Link} : graph.Binds link ↔ graph.fits link = true := by
  constructor
  · rintro ⟨resolved, bound⟩
    exact (((Wired.Feeding.bare graph).bindLink_isOk_iff resolved).1 bound).1
  · intro fits
    have resolved := (fits_iff.1 fits).1
    exact ⟨resolved, ((Wired.Feeding.bare graph).bindLink_isOk_iff resolved).2 ⟨fits, rfl⟩⟩

theorem drops_iff {before : List Link} {link : Link} :
    graph.Drops before link ↔ graph.accepts before link = false := by
  obtain ⟨wired, ran, feeding⟩ := (Wired.Feeding.bare graph).run before
  rw [List.nil_append] at feeding
  constructor
  · rintro ⟨same, fault, sameRan, failed⟩
    cases ran.symm.trans sameRan
    cases accepts : graph.accepts before link with
    | false => rfl
    | true =>
        obtain ⟨next, added, _⟩ := feeding.addLink_of_accepts accepts
        cases added.symm.trans failed
  · intro rejects
    obtain ⟨⟨fault, failed⟩, _⟩ := feeding.addLink_of_rejects rejects
    exact ⟨wired, fault, ran, failed⟩

theorem Alike.of_agree (alive : NodeId → Prop) (agree : ∀ id, graph.Agree other id)
    (links : other.links = graph.links) (roots : ∀ id, id ∈ graph.roots ↔ id ∈ other.roots) :
    Alike alive graph other where
  roots := roots
  known := by
    intro root _ known
    rcases (agree root).cases with ⟨absent, _⟩ | ⟨_, node, _, found, _⟩
    · rw [contains, absent] at known
      cases known
    · exact contains_iff.2 ⟨node, found⟩
  nodes := fun id _ => agree id
  feeders := by
    intro id _ slot
    have same : graph.fits = other.fits := by
      funext link
      exact fits_congr (agree link.startNode) (agree link.endNode)
    rw [feeder?, feeder?, same, links]
  bridges := by
    intro link _
    rw [links, touches_congr (agree link.startNode) (agree link.endNode)]

/-- Where no slot is contested, the order of the links does not matter. -/
theorem feeder?_of_perm (uncontested : graph.Uncontested) {links : List Link}
    (order : graph.links.Perm links) (id : NodeId) (slot : SlotId) :
    graph.feeder? graph.links id slot = graph.feeder? links id slot := by
  have symmetric : Std.Symm fun first second : Link =>
      graph.fits first = true → graph.fits second = true → first.endNode = second.endNode →
        first.endSlot = second.endSlot → first = second := by
    refine ⟨?_⟩
    intro first second equal fitsSecond fitsFirst nodes slots
    exact (equal fitsFirst fitsSecond nodes.symm slots.symm).symm
  have pairs : graph.links.Pairwise fun first second =>
      graph.fits first = true → graph.fits second = true → first.endNode = second.endNode →
        first.endSlot = second.endSlot → first = second := by
    refine uncontested.imp ?_
    intro first second apart fitsFirst fitsSecond nodes slots
    exact absurd ⟨binds_iff.2 fitsFirst, binds_iff.2 fitsSecond, nodes, slots⟩ apart
  have unique := pairs.forall_of_forall fun _ _ _ _ _ _ => rfl
  cases feeds : graph.feeder? graph.links id slot with
  | none =>
      symm
      apply List.find?_eq_none.2
      intro link member
      exact List.find?_eq_none.1 feeds link (order.mem_iff.2 member)
  | some link =>
      obtain ⟨member, fits, rfl, rfl⟩ := feeder?_eq_some feeds
      cases other : graph.feeder? links link.endNode link.endSlot with
      | none =>
          have unfed := List.find?_eq_none.1 other link (order.mem_iff.1 member)
          simp [fits] at unfed
      | some second =>
          obtain ⟨listed, fitsSecond, nodes, slots⟩ := feeder?_eq_some other
          rw [unique member (order.mem_iff.2 listed) fits fitsSecond nodes.symm slots.symm]

theorem Alike.of_links (alive : NodeId → Prop) (uncontested : graph.Uncontested)
    {links : List Link} (order : graph.links.Perm links) :
    Alike alive graph { graph with links } where
  roots := fun _ => Iff.rfl
  known := fun _ _ known => known
  nodes := fun _ _ => rfl
  feeders := fun id _ slot => feeder?_of_perm uncontested order id slot
  bridges := by
    intro link _
    rw [order.mem_iff]
    exact Iff.rfl

namespace Interspersed

theorem subset {before old new : List Link} (links : graph.Interspersed before old new) :
    old ⊆ new := by
  induction links with
  | nil => exact List.Subset.refl []
  | kept link _ induction => exact List.cons_subset_cons link induction
  | added link _ _ induction => exact List.subset_cons_of_subset link induction

theorem mem_or_idle {before old new : List Link} (links : graph.Interspersed before old new)
    {link : Link} (member : link ∈ new) :
    link ∈ old ∨ (∃ earlier, graph.Drops earlier link) ∨ graph.Dead link.endNode := by
  induction links with
  | nil => cases member
  | kept first _ induction =>
      rcases List.mem_cons.1 member with rfl | later
      · exact Or.inl List.mem_cons_self
      · exact (induction later).imp (List.mem_cons_of_mem _) id
  | added first idle _ induction =>
      rcases List.mem_cons.1 member with rfl | later
      · exact Or.inr (idle.imp (fun drops => ⟨_, drops⟩) id)
      · exact induction later

end Interspersed

namespace Pads

theorem node? (pads : graph.Pads other) {id : NodeId} {node : Node Target}
    (found : graph.node? id = some node) : other.node? id = some node := by
  obtain ⟨member, rfl⟩ := mem_of_node? found
  exact node?_of_mem pads.distinct (pads.nodes.subset member)

theorem node?_of_feeds (pads : graph.Pads other) {wired : Wired Target}
    (wire : other.wire .lenient = .ok wired) {id : NodeId} (lives : wired.Feeds other.roots id)
    {node : Node Target} (found : other.node? id = some node) : graph.node? id = some node := by
  obtain ⟨member, rfl⟩ := mem_of_node? found
  have distinct : graph.ids.Nodup := (pads.nodes.map Node.id).nodup pads.distinct
  refine node?_of_mem distinct ?_
  by_contra added
  exact pads.dead node member added wired wire lives

theorem agree (pads : graph.Pads other) {wired : Wired Target}
    (wire : other.wire .lenient = .ok wired) (feeding : wired.Feeding other other.links)
    {id : NodeId} (lives : wired.Feeds other.roots id) : graph.Agree other id := by
  obtain ⟨node, found⟩ := feeding.exists_node_of_feeds lives
  exact Agree.of_eq ((pads.node?_of_feeds wire lives found).trans found.symm)

theorem fits (pads : graph.Pads other) {link : Link} (fitted : graph.fits link = true) :
    other.fits link = true := by
  obtain ⟨_, ⟨_, _, start, _⟩, ⟨_, _, finish, _⟩⟩ := fits_iff.1 fitted
  rw [← fitted]
  symm
  exact fits_congr (Agree.of_eq (start.trans (pads.node? start).symm))
    (Agree.of_eq (finish.trans (pads.node? finish).symm))

/-- Added links feed no living slot, so that the first link to fit it is the same. -/
theorem feeder?_eq (pads : graph.Pads other) {wired : Wired Target}
    (wire : other.wire .lenient = .ok wired) (feeding : wired.Feeding other other.links)
    {id : NodeId} (lives : wired.Feeds other.roots id) {slot : SlotId}
    {before old new : List Link} (links : other.Interspersed before old new)
    (whole : before ++ new = other.links) (unfed : other.feeder? before id slot = none) :
    graph.feeder? old id slot = other.feeder? new id slot := by
  induction links with
  | nil => rfl
  | @kept taken old new link rest induction =>
      rw [feeder?_cons, feeder?_cons]
      by_cases hits : other.fits link = true ∧ link.endNode = id ∧ link.endSlot = slot
      · -- It is the first to fit the slot, so it is accepted and its producer is alive.
        have first : other.feeder? other.links id slot = some link := by
          rw [← whole, feeder?_append, unfed, feeder?_cons, if_pos hits]
          rfl
        obtain ⟨fits, rfl, rfl⟩ := hits
        have leads : wired.Leads link.startNode link.endNode :=
          feeding.leads_iff.2 ⟨link, (feeder?_eq_some first).1, rfl, rfl, Or.inr first⟩
        have fitted : graph.fits link = true :=
          (fits_congr (pads.agree wire feeding (lives.of_leads leads))
            (pads.agree wire feeding lives)).trans fits
        rw [if_pos ⟨fitted, rfl, rfl⟩, if_pos ⟨fits, rfl, rfl⟩]
      · have missed : ¬(graph.fits link = true ∧ link.endNode = id ∧ link.endSlot = slot) :=
          fun ⟨fitted, aims⟩ => hits ⟨pads.fits fitted, aims⟩
        rw [if_neg missed, if_neg hits]
        refine induction (by simpa using whole) ?_
        rw [feeder?_snoc, unfed, if_neg hits]
        rfl
  | @added taken old new link idle rest induction =>
      have misses : ¬(other.fits link = true ∧ link.endNode = id ∧ link.endSlot = slot) := by
        rintro ⟨fits, rfl, rfl⟩
        rcases idle with drops | dead
        · have rejects := drops_iff.1 drops
          simp [accepts, fits, unfed] at rejects
        · exact dead wired wire lives
      rw [feeder?_cons, if_neg misses]
      refine induction (by simpa using whole) ?_
      rw [feeder?_snoc, unfed, if_neg misses]
      rfl

theorem bridges (pads : graph.Pads other) {wired : Wired Target}
    (wire : other.wire .lenient = .ok wired) (feeding : wired.Feeding other other.links)
    {link : Link} (lives : wired.Feeds other.roots link.endNode) :
    (link ∈ graph.links ∧ Wired.touchesUnresolved graph link = true ↔
      link ∈ other.links ∧ Wired.touchesUnresolved other link = true) := by
  constructor
  · rintro ⟨member, touches⟩
    refine ⟨pads.links.subset member, ?_⟩
    obtain ⟨producer, consumer, start, finish⟩ := exists_of_touches touches
    rw [← touches]
    symm
    exact touches_congr (Agree.of_eq (start.trans (pads.node? start).symm))
      (Agree.of_eq (finish.trans (pads.node? finish).symm))
  · rintro ⟨member, touches⟩
    have leads : wired.Leads link.startNode link.endNode :=
      feeding.leads_iff.2 ⟨link, member, rfl, rfl, Or.inl touches⟩
    refine ⟨?_, (touches_congr (pads.agree wire feeding (lives.of_leads leads))
      (pads.agree wire feeding lives)).trans touches⟩
    rcases pads.links.mem_or_idle member with old | ⟨earlier, drops⟩ | dead
    · exact old
    · have rejects := drops_iff.1 drops
      simp [accepts, touches] at rejects
    · exact absurd lives (dead wired wire)

theorem alike (pads : graph.Pads other) {wired : Wired Target}
    (wire : other.wire .lenient = .ok wired) (feeding : wired.Feeding other other.links) :
    Alike (wired.Feeds other.roots) graph other where
  roots := by
    intro id
    rw [pads.roots]
  known := by
    intro root _ known
    obtain ⟨node, found⟩ := contains_iff.1 known
    exact contains_iff.2 ⟨node, pads.node? found⟩
  nodes := fun _ lives => pads.agree wire feeding lives
  feeders := fun _ lives _ => pads.feeder?_eq wire feeding lives pads.links rfl rfl
  bridges := fun _ lives => pads.bridges wire feeding lives

end Pads

namespace Redrawn

theorem nodup_ids (redrawn : Redrawn graph other) (distinct : graph.ids.Nodup) :
    other.ids.Nodup := by
  cases redrawn with
  | rename name => exact distinct
  | renameNode id name =>
      have same : (updateNode id (fun node => node.withName name) graph.nodes).map Node.id =
          graph.nodes.map Node.id := by
        apply map_updateFirst
        intro node
        rfl
      unfold ids
      rw [same]
      exact distinct
  | nodes order => exact (order.map Node.id).nodup_iff.1 distinct
  | roots order => exact distinct
  | links order uncontested => exact distinct
  | pad pads => exact pads.distinct

theorem alike (redrawn : Redrawn graph other) (distinct : graph.ids.Nodup) {wired : Wired Target}
    (wire : other.wire .lenient = .ok wired) (feeding : wired.Feeding other other.links) :
    Alike (wired.Feeds other.roots) graph other := by
  cases redrawn with
  | rename name => exact .of_agree _ (fun _ => rfl) rfl fun _ => Iff.rfl
  | renameNode id name =>
      exact .of_agree _ (agree_renameNode graph id name) rfl fun _ => Iff.rfl
  | nodes order =>
      exact .of_agree _ (fun id => .of_eq (node?_of_perm distinct order id)) rfl fun _ => Iff.rfl
  | roots order => exact .of_agree _ (fun _ => rfl) rfl fun _ => order.mem_iff
  | links order uncontested => exact .of_links _ uncontested order
  | pad pads => exact pads.alike wire feeding

end Redrawn

end Graph

/-- However often a graph is redrawn, it is wired leniently to the same fingerprint. -/
theorem Graph.fingerprint_of_redrawn {graph other : Material} (distinct : graph.ids.Nodup)
    (redrawn : Relation.ReflTransGen Graph.Redrawn graph other) :
    other.ids.Nodup ∧ ∃ wired otherWired, graph.wire .lenient = .ok wired ∧
      other.wire .lenient = .ok otherWired ∧
      wired.fingerprint graph.roots = otherWired.fingerprint other.roots := by
  induction redrawn with
  | refl =>
      obtain ⟨wired, wire, _⟩ := graph.wire_lenient
      exact ⟨distinct, wired, wired, wire, wire, rfl⟩
  | @tail middle last _ step induction =>
      obtain ⟨middleDistinct, wired, middleWired, wire, middleWire, same⟩ := induction
      obtain ⟨again, againWire, middleFeeding⟩ := middle.wire_lenient
      cases middleWire.symm.trans againWire
      obtain ⟨lastWired, lastWire, lastFeeding⟩ := last.wire_lenient
      have alike := step.alike middleDistinct lastWire lastFeeding
      exact ⟨step.nodup_ids middleDistinct, wired, lastWired, wire, lastWire,
        same.trans (alike.fingerprint_eq middleFeeding lastFeeding)⟩

/-- Redrawing a graph leaves its digest as it is. -/
theorem Settings.digest_of_redrawn {settings : Settings} (lenient : settings.linkPolicy = .lenient)
    {graph other : Material} (distinct : graph.ids.Nodup)
    (redrawn : Relation.ReflTransGen Graph.Redrawn graph other) :
    ∃ compiled otherCompiled, settings.compile graph = .ok compiled ∧
      settings.compile other = .ok otherCompiled ∧ compiled.digest = otherCompiled.digest := by
  obtain ⟨_, wired, otherWired, wire, otherWire, same⟩ :=
    Graph.fingerprint_of_redrawn distinct redrawn
  have compiles : ∀ {drawn : Material} {drawnWired : WiredMaterial},
      drawn.wire .lenient = .ok drawnWired → ∃ compiled, settings.compile drawn = .ok compiled ∧
        compiled.digest = drawnWired.fingerprint drawn.roots := by
    intro drawn drawnWired drawnWire
    unfold Settings.compile
    rw [lenient, drawnWire]
    exact ⟨_, rfl, rfl⟩
  obtain ⟨compiled, ok, digest⟩ := compiles wire
  obtain ⟨otherCompiled, otherOk, otherDigest⟩ := compiles otherWire
  exact ⟨compiled, otherCompiled, ok, otherOk, digest.trans (same.trans otherDigest.symm)⟩

namespace Sample

def marked : Material := { double with roots := [2, 1] }

def remarked : Material where
  name := "Twice"
  nodes := [.ofKind 2 (.functionOutput (some "y") .numeric),
    (Node.ofKind 1 (.math .add)).withName "Sum",
    .ofKind 0 (.functionInput (some "x") .scalar none)]
  links := [⟨1, 0, 2, 0⟩, ⟨0, 0, 1, 1⟩, ⟨0, 0, 1, 0⟩]
  roots := [1, 2]

/-- With a node that feeds nothing, the links to it, and a link to a slot that is taken. -/
def padded : Material :=
  { remarked with
    nodes := remarked.nodes ++ [.ofKind 7 (.math .add)]
    links := ⟨1, 0, 7, 0⟩ :: remarked.links ++ [⟨7, 0, 1, 0⟩, ⟨7, 0, 7, 1⟩] }

theorem marked_redrawn : Relation.ReflTransGen Graph.Redrawn marked remarked := by
  have renamed : Graph.Redrawn marked (marked.rename "Twice") := .rename _ _
  have named := Graph.Redrawn.renameNode (marked.rename "Twice") 1 "Sum"
  refine .tail (.tail (.tail (.tail (.tail .refl renamed) named)
    (.nodes _ (List.reverse_perm _).symm)) (.roots _ (List.reverse_perm _).symm))
    (.links _ (List.reverse_perm _).symm ?_)
  unfold Graph.Uncontested
  simp only [Graph.binds_iff]
  decide

def paddedWired : WiredMaterial :=
  match padded.wire .lenient with
  | .ok wired => wired
  | .error _ => .bare padded

theorem padded_dead : padded.Dead 7 := by
  have same : padded.wire .lenient = .ok paddedWired := rfl
  intro wired wire feeds
  cases same.symm.trans wire
  have reached : paddedWired.reachable padded.roots = [1, 2, 0] := by decide +kernel
  have member := Wired.mem_reachable.2 feeds
  rw [reached] at member
  revert member
  decide

theorem remarked_pads : remarked.Pads padded where
  distinct := by decide
  roots := rfl
  nodes := List.sublist_append_left _ _
  dead := by
    intro node member added
    rcases List.mem_append.1 member with old | new
    · exact absurd old added
    · rw [List.mem_singleton.1 new]
      exact padded_dead
  links := .added _ (.inr padded_dead) <| .kept _ <| .kept _ <| .kept _ <|
    .added _ (.inl ⟨_, _, rfl, rfl⟩) <| .added _ (.inr padded_dead) <| .nil _

end Sample

theorem Settings.digest_of_redrawn_padded :
    ∃ compiled otherCompiled, (default : Settings).compile Sample.marked = .ok compiled ∧
      (default : Settings).compile Sample.padded = .ok otherCompiled ∧
      compiled.digest = otherCompiled.digest :=
  Settings.digest_of_redrawn rfl (by decide)
    (.tail Sample.marked_redrawn (.pad Sample.remarked_pads))

end MaterialGraph
