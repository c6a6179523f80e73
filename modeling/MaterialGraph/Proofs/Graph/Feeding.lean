import MaterialGraph.Proofs.Graph.Wiring

/-!
Which link feeds which slot. Wired leniently, links never fail: an input slot is bound by the first
link of the list that fits it, and the links that are accepted are these and the links at unresolved
calls. Whether a link fits depends on the nodes alone, not on the other links.
-/

set_option autoImplicit false

namespace MaterialGraph

variable {Target : Type}

namespace InputSlot

/-- Slots bound by what is given for their identifiers. Of several slots with one identifier only
the first can be bound. -/
def feed (given : SlotId → Option Binding) : List InputSlot → List InputSlot
  | [] => []
  | input :: rest =>
      { input with binding := given input.id } ::
        feed (fun slot => if slot = input.id then none else given slot) rest

theorem feed_none (inputs : List InputSlot) :
    feed (fun _ => none) inputs = inputs.map unbind := by
  induction inputs with
  | nil => rfl
  | cons input rest induction =>
      rw [feed, List.map_cons]
      simp only [ite_self, induction]
      rfl

theorem find?_feed (given : SlotId → Option Binding) (inputs : List InputSlot) (slot : SlotId) :
    (feed given inputs).find? (fun input => input.id = slot) =
      (inputs.find? fun input => input.id = slot).map
        fun input => { input with binding := given slot } := by
  induction inputs generalizing given with
  | nil => rfl
  | cons input rest induction =>
      rw [feed]
      by_cases here : input.id = slot
      · subst here
        simp
      · rw [List.find?_cons_of_neg (by simpa using here),
          List.find?_cons_of_neg (by simpa using here), induction, if_neg (Ne.symm here)]

theorem updateFirst_feed (given : SlotId → Option Binding) (slot : SlotId) (binding : Binding)
    (inputs : List InputSlot) :
    updateFirst InputSlot.id slot (fun input => { input with binding := some binding })
        (feed given inputs) =
      feed (fun other => if other = slot then some binding else given other) inputs := by
  induction inputs generalizing given with
  | nil => rfl
  | cons input rest induction =>
      rw [feed, feed, updateFirst]
      by_cases here : input.id = slot
      · -- The slots behind it with this identifier stay unbound either way.
        have later : (fun other => if other = input.id then none else given other) =
            fun other => if other = input.id then none
              else if other = slot then some binding else given other := by
          funext other
          split
          · rfl
          · rename_i different
            rw [if_neg (here ▸ different)]
        rw [if_pos here, if_pos here, later]
      · have later : (fun other => if other = slot then some binding
              else if other = input.id then none else given other) =
            fun other => if other = input.id then none
              else if other = slot then some binding else given other := by
          funext other
          by_cases same : other = slot
          · subst same
            rw [if_pos rfl, if_neg (Ne.symm here), if_pos rfl]
          · rw [if_neg same, if_neg same]
        rw [if_neg here, if_neg here, induction, later]

end InputSlot

namespace Node

def feed (node : Node Target) (given : SlotId → Option Binding) : Node Target :=
  { node with inputs := InputSlot.feed given node.inputs }

theorem feed_none (node : Node Target) : node.feed (fun _ => none) = node.unbind := by
  rw [feed, InputSlot.feed_none]
  rfl

theorem input?_feed (node : Node Target) (given : SlotId → Option Binding) (slot : SlotId) :
    (node.feed given).input? slot =
      (node.input? slot).map fun input => { input with binding := given slot } :=
  InputSlot.find?_feed given node.inputs slot

theorem bind_feed (node : Node Target) (given : SlotId → Option Binding) (slot : SlotId)
    (binding : Binding) :
    (node.feed given).bind slot binding =
      node.feed fun other => if other = slot then some binding else given other := by
  rw [feed, feed, bind, updateInput, InputSlot.updateFirst_feed]

end Node

namespace Graph

variable [CallSite Target]

/-- A link that binds the slot it ends at, if no other link does. -/
def fits (graph : Graph Target) (link : Link) : Bool :=
  !Wired.touchesUnresolved graph link &&
    (graph.node? link.startNode).any (fun producer => (producer.output? link.startSlot).isSome) &&
    (graph.node? link.endNode).any fun consumer => (consumer.input? link.endSlot).isSome

def feeder? (graph : Graph Target) (links : List Link) (id : NodeId) (slot : SlotId) :
    Option Link :=
  links.find? fun link => graph.fits link && (link.endNode = id && link.endSlot = slot)

def given (graph : Graph Target) (links : List Link) (id : NodeId) (slot : SlotId) :
    Option Binding :=
  (graph.feeder? links id slot).map Link.binding

/-- A link that is accepted after others: it touches an unresolved call, or it fits a slot that
none of them feeds. -/
def accepts (graph : Graph Target) (taken : List Link) (link : Link) : Bool :=
  Wired.touchesUnresolved graph link ||
    (graph.fits link && (graph.feeder? taken link.endNode link.endSlot).isNone)

def acceptedAfter (graph : Graph Target) (taken : List Link) : List Link → List Link
  | [] => []
  | link :: rest =>
      (if graph.accepts taken link then [link] else []) ++
        graph.acceptedAfter (taken ++ [link]) rest

variable {graph : Graph Target}

theorem fits_iff {link : Link} :
    graph.fits link = true ↔ Wired.touchesUnresolved graph link = false ∧
      (∃ producer output, graph.node? link.startNode = some producer ∧
        producer.output? link.startSlot = some output) ∧
      ∃ consumer input, graph.node? link.endNode = some consumer ∧
        consumer.input? link.endSlot = some input := by
  simp only [fits, Bool.and_eq_true, Bool.not_eq_true', Option.any_eq_true, and_assoc,
    Option.isSome_iff_exists, exists_and_left]

theorem fits_eq_false_of_touches {link : Link}
    (touches : Wired.touchesUnresolved graph link = true) : graph.fits link = false := by
  simp [fits, touches]

theorem exists_of_touches {link : Link} (touches : Wired.touchesUnresolved graph link = true) :
    ∃ producer consumer, graph.node? link.startNode = some producer ∧
      graph.node? link.endNode = some consumer := by
  unfold Wired.touchesUnresolved at touches
  split at touches
  · rename_i producer consumer start finish
    exact ⟨producer, consumer, start, finish⟩
  · cases touches

theorem feeder?_append (taken links : List Link) (id : NodeId) (slot : SlotId) :
    graph.feeder? (taken ++ links) id slot =
      (graph.feeder? taken id slot).or (graph.feeder? links id slot) :=
  List.find?_append

theorem feeder?_cons (link : Link) (links : List Link) (id : NodeId) (slot : SlotId) :
    graph.feeder? (link :: links) id slot =
      if graph.fits link ∧ link.endNode = id ∧ link.endSlot = slot then some link
      else graph.feeder? links id slot := by
  unfold feeder?
  rw [List.find?_cons]
  split <;> simp_all

theorem feeder?_snoc (taken : List Link) (link : Link) (id : NodeId) (slot : SlotId) :
    graph.feeder? (taken ++ [link]) id slot = (graph.feeder? taken id slot).or
      (if graph.fits link ∧ link.endNode = id ∧ link.endSlot = slot then some link else none) := by
  rw [feeder?_append, feeder?_cons]
  rfl

theorem feeder?_eq_some {links : List Link} {id : NodeId} {slot : SlotId} {link : Link}
    (feeds : graph.feeder? links id slot = some link) :
    link ∈ links ∧ graph.fits link = true ∧ link.endNode = id ∧ link.endSlot = slot := by
  have found := List.find?_some feeds
  simp only [Bool.and_eq_true, decide_eq_true_eq] at found
  exact ⟨List.mem_of_find?_eq_some feeds, found⟩

/-- A link that is not accepted changes no feeder. -/
theorem feeder?_snoc_of_rejected {taken : List Link} {link : Link}
    (rejected : graph.accepts taken link = false) (id : NodeId) (slot : SlotId) :
    graph.feeder? (taken ++ [link]) id slot = graph.feeder? taken id slot := by
  rw [feeder?_snoc]
  split
  · rename_i aims
    obtain ⟨fits, rfl, rfl⟩ := aims
    have fed : (graph.feeder? taken link.endNode link.endSlot).isNone = false := by
      simpa [accepts, fits] using (Bool.or_eq_false_iff.1 rejected).2
    cases first : graph.feeder? taken link.endNode link.endSlot with
    | none =>
        rw [first] at fed
        cases fed
    | some _ => rfl
  · rw [Option.or_none]

end Graph

namespace Wired

variable [CallSite Target]

theorem accepted_of_addLink {wired next : Wired Target} {link : Link}
    (added : wired.addLink link = .ok next) : next.accepted = wired.accepted ++ [link] := by
  unfold addLink at added
  split at added
  · cases added
    rfl
  · split at added
    · cases added
      rfl
    · cases added

theorem dropped_of_addLink {wired next : Wired Target} {link : Link}
    (added : wired.addLink link = .ok next) : next.dropped = wired.dropped := by
  unfold addLink at added
  split at added
  · cases added
    rfl
  · split at added
    · cases added
      rfl
    · cases added

/-- A graph after some links were wired leniently: what feeds each slot, and what was accepted. -/
structure Feeding (graph : Graph Target) (taken : List Link) (wired : Wired Target) : Prop where
  nodes : ∀ id, wired.node? id =
    (graph.node? id).map fun node => node.feed (graph.given taken id)
  accepted : ∀ link, link ∈ wired.accepted ↔ link ∈ taken ∧
    (touchesUnresolved graph link = true ∨
      graph.feeder? taken link.endNode link.endSlot = some link)

namespace Feeding

variable {graph : Graph Target} {taken : List Link} {wired : Wired Target}

theorem bare (graph : Graph Target) : Feeding graph [] (Wired.bare graph) where
  nodes := by
    intro id
    have none : ∀ node : Node Target, node.feed (graph.given [] id) = node.unbind :=
      Node.feed_none
    simp only [none]
    unfold Wired.node? Wired.bare Graph.node?
    rw [List.find?_map]
    rfl
  accepted := by simp [Wired.bare]

theorem touches_eq (feeding : Feeding graph taken wired) (link : Link) :
    touchesUnresolved wired.graph link = touchesUnresolved graph link := by
  have start := feeding.nodes link.startNode
  have finish := feeding.nodes link.endNode
  unfold Wired.node? at start finish
  unfold touchesUnresolved
  rw [start, finish]
  cases graph.node? link.startNode <;> cases graph.node? link.endNode <;> rfl

/-- The next link binds its slot exactly if it fits it and nothing feeds it. -/
theorem bindLink_isOk_iff (feeding : Feeding graph taken wired) {link : Link}
    (resolved : touchesUnresolved graph link = false) :
    (∃ after, bindLink wired.graph link = .ok after) ↔
      graph.fits link = true ∧ graph.feeder? taken link.endNode link.endSlot = none := by
  have start := feeding.nodes link.startNode
  have finish := feeding.nodes link.endNode
  unfold Wired.node? at start finish
  rw [Graph.fits_iff]
  constructor
  · rintro ⟨after, bound⟩
    obtain ⟨⟨producer, output, foundProducer, foundOutput⟩,
      ⟨consumer, input, foundConsumer, foundInput, unbound⟩, _⟩ := Wires.bindLink_eq_ok bound
    obtain ⟨madeProducer, atStart, rfl⟩ :=
      Option.map_eq_some_iff.1 (start.symm.trans foundProducer)
    obtain ⟨madeConsumer, atEnd, rfl⟩ :=
      Option.map_eq_some_iff.1 (finish.symm.trans foundConsumer)
    rw [Node.input?_feed] at foundInput
    obtain ⟨madeInput, atSlot, rfl⟩ := Option.map_eq_some_iff.1 foundInput
    exact ⟨⟨resolved, ⟨madeProducer, output, atStart, foundOutput⟩,
      ⟨madeConsumer, madeInput, atEnd, atSlot⟩⟩, Option.map_eq_none_iff.1 unbound⟩
  · rintro ⟨⟨_, ⟨producer, output, atStart, foundOutput⟩,
      ⟨consumer, input, atEnd, atSlot⟩⟩, unfed⟩
    have foundOutput : (producer.feed (graph.given taken link.startNode)).output?
        link.startSlot = some output := foundOutput
    have foundInput := consumer.input?_feed (graph.given taken link.endNode) link.endSlot
    rw [atSlot] at foundInput
    rw [atStart] at start
    rw [atEnd] at finish
    simp [bindLink, start, finish, foundOutput, foundInput, Graph.given, unfed]

theorem snoc_of_touches (feeding : Feeding graph taken wired) {link : Link}
    (touches : touchesUnresolved graph link = true) :
    Feeding graph (taken ++ [link]) { wired with accepted := wired.accepted ++ [link] } := by
  have skipped : ∀ id slot,
      graph.feeder? (taken ++ [link]) id slot = graph.feeder? taken id slot := by
    intro id slot
    simp [Graph.feeder?_snoc, Graph.fits_eq_false_of_touches touches]
  refine ⟨?_, ?_⟩
  · intro id
    have same : graph.given (taken ++ [link]) id = graph.given taken id := by
      funext slot
      rw [Graph.given, skipped, Graph.given]
    rw [same]
    exact feeding.nodes id
  · intro other
    rw [skipped, List.mem_append, List.mem_append, feeding.accepted, List.mem_singleton]
    constructor
    · rintro (⟨member, reason⟩ | rfl)
      · exact ⟨Or.inl member, reason⟩
      · exact ⟨Or.inr rfl, Or.inl touches⟩
    · rintro ⟨member | rfl, reason⟩
      · exact Or.inl ⟨member, reason⟩
      · exact Or.inr rfl

/-- Binding the slot of a link feeds that slot and no other. -/
theorem nodes_of_bindLink (feeding : Feeding graph taken wired) {link : Link}
    (fits : graph.fits link = true)
    (unfed : graph.feeder? taken link.endNode link.endSlot = none) {after : Graph Target}
    (bound : bindLink wired.graph link = .ok after) (id : NodeId) :
    after.node? id = (graph.node? id).map fun node =>
      node.feed (graph.given (taken ++ [link]) id) := by
  obtain ⟨_, _, changed⟩ := Wires.bindLink_eq_ok bound
  have old := feeding.nodes id
  have keeps : ∀ node : Node Target,
      (node.bind link.endSlot link.binding).id = node.id := fun _ => rfl
  unfold Wired.node? Graph.node? at old
  unfold Graph.node?
  rw [changed]
  simp only
  rw [Graph.updateNode, find?_updateFirst keeps, old, Option.map_map]
  congr 1
  funext node
  simp only [Function.comp_apply]
  split
  · rename_i same
    subst same
    rw [Node.bind_feed]
    congr 1
    funext slot
    simp only [Graph.given, Graph.feeder?_snoc, fits, true_and]
    by_cases here : slot = link.endSlot
    · simp [here, unfed]
    · simp [here, Ne.symm here]
  · rename_i elsewhere
    congr 1
    funext slot
    simp [Graph.given, Graph.feeder?_snoc, Ne.symm elsewhere]

theorem accepted_of_fits (feeding : Feeding graph taken wired) {link : Link}
    (fits : graph.fits link = true)
    (unfed : graph.feeder? taken link.endNode link.endSlot = none) (other : Link) :
    other ∈ wired.accepted ++ [link] ↔
      other ∈ taken ++ [link] ∧ (touchesUnresolved graph other = true ∨
        graph.feeder? (taken ++ [link]) other.endNode other.endSlot = some other) := by
  rw [Graph.feeder?_snoc, List.mem_append, List.mem_append, feeding.accepted, List.mem_singleton]
  constructor
  · rintro (⟨member, touched | first⟩ | rfl)
    · exact ⟨Or.inl member, Or.inl touched⟩
    · exact ⟨Or.inl member, Or.inr (by rw [first]; rfl)⟩
    · exact ⟨Or.inr rfl, Or.inr (by simp [unfed, fits])⟩
  · rintro ⟨member, touched | first⟩
    · rcases member with member | rfl
      · exact Or.inl ⟨member, Or.inl touched⟩
      · exact Or.inr rfl
    · rcases Option.or_eq_some_iff.1 first with old | ⟨_, new⟩
      · exact Or.inl ⟨(Graph.feeder?_eq_some old).1, Or.inr old⟩
      · split at new
        · exact Or.inr (Option.some.inj new).symm
        · cases new

theorem addLink_of_accepts (feeding : Feeding graph taken wired) {link : Link}
    (accepts : graph.accepts taken link = true) :
    ∃ next, wired.addLink link = .ok next ∧ Feeding graph (taken ++ [link]) next := by
  unfold addLink
  rw [feeding.touches_eq]
  cases touches : touchesUnresolved graph link with
  | true => exact ⟨_, rfl, feeding.snoc_of_touches touches⟩
  | false =>
      have fitting : graph.fits link = true ∧
          graph.feeder? taken link.endNode link.endSlot = none := by
        simpa [Graph.accepts, touches] using accepts
      obtain ⟨after, bound⟩ := (feeding.bindLink_isOk_iff touches).2 fitting
      obtain ⟨fits, unfed⟩ := fitting
      simp only [Bool.false_eq_true, if_false, bound]
      exact ⟨_, rfl, feeding.nodes_of_bindLink fits unfed bound,
        feeding.accepted_of_fits fits unfed⟩

theorem addLink_of_rejects (feeding : Feeding graph taken wired) {link : Link}
    (rejects : graph.accepts taken link = false) :
    (∃ fault, wired.addLink link = .error fault) ∧ Feeding graph (taken ++ [link]) wired := by
  obtain ⟨resolved, unfit⟩ := Bool.or_eq_false_iff.1 rejects
  have same := Graph.feeder?_snoc_of_rejected rejects
  refine ⟨?_, ?_, ?_⟩
  · unfold addLink
    rw [feeding.touches_eq, resolved]
    cases bound : bindLink wired.graph link with
    | error fault => exact ⟨fault, rfl⟩
    | ok after =>
        obtain ⟨fits, unfed⟩ := (feeding.bindLink_isOk_iff resolved).1 ⟨after, bound⟩
        simp [fits, unfed] at unfit
  · intro id
    have kept : graph.given (taken ++ [link]) id = graph.given taken id := by
      funext slot
      rw [Graph.given, same, Graph.given]
    rw [kept]
    exact feeding.nodes id
  · intro other
    rw [same, feeding.accepted, List.mem_append, List.mem_singleton]
    constructor
    · exact fun ⟨member, reason⟩ => ⟨Or.inl member, reason⟩
    · rintro ⟨member | rfl, reason⟩
      · exact ⟨member, reason⟩
      · rcases reason with touched | first
        · rw [resolved] at touched
          cases touched
        · obtain ⟨member, _⟩ := Graph.feeder?_eq_some first
          exact ⟨member, Or.inr first⟩

theorem step (feeding : Feeding graph taken wired) (link : Link) :
    ∃ next, wired.addLinkUnder .lenient link = .ok next ∧ Feeding graph (taken ++ [link]) next ∧
      next.accepted = wired.accepted ++ if graph.accepts taken link then [link] else [] := by
  unfold addLinkUnder
  cases accepts : graph.accepts taken link with
  | true =>
      obtain ⟨next, added, feedingNext⟩ := feeding.addLink_of_accepts accepts
      exact ⟨next, by rw [added], feedingNext, accepted_of_addLink added⟩
  | false =>
      obtain ⟨⟨fault, failed⟩, kept⟩ := feeding.addLink_of_rejects accepts
      exact ⟨{ wired with dropped := wired.dropped ++ [fault] }, by rw [failed],
        ⟨kept.nodes, kept.accepted⟩, (List.append_nil _).symm⟩

/-- Links wired leniently never fail. -/
theorem run (feeding : Feeding graph taken wired) (links : List Link) :
    ∃ next, links.foldlM (addLinkUnder .lenient) wired = .ok next ∧
      Feeding graph (taken ++ links) next := by
  induction links generalizing taken wired with
  | nil => exact ⟨wired, rfl, by simpa using feeding⟩
  | cons link rest induction =>
      obtain ⟨next, added, feedingNext, _⟩ := feeding.step link
      obtain ⟨last, ran, feedingLast⟩ := induction feedingNext
      refine ⟨last, ?_, by simpa using feedingLast⟩
      rw [List.foldlM_cons, added]
      exact ran

/-- What each link adds to a list, told by the links before it, is listed in their order. -/
theorem listed_run {Item : Type} {read : Wired Target → List Item}
    {piece : List Link → Link → List Item} {pieces : List Link → List Link → List Item}
    (none : ∀ taken, pieces taken [] = [])
    (more : ∀ taken link rest,
      pieces taken (link :: rest) = piece taken link ++ pieces (taken ++ [link]) rest)
    (adds : ∀ {taken wired link next}, Feeding graph taken wired →
      addLinkUnder .lenient wired link = .ok next → read next = read wired ++ piece taken link)
    (feeding : Feeding graph taken wired) {links : List Link} {last : Wired Target}
    (ran : links.foldlM (addLinkUnder .lenient) wired = .ok last) :
    read last = read wired ++ pieces taken links := by
  induction links generalizing taken wired with
  | nil =>
      cases ran
      rw [none, List.append_nil]
  | cons link rest induction =>
      obtain ⟨next, added, feedingNext, _⟩ := feeding.step link
      rw [List.foldlM_cons, added] at ran
      rw [induction feedingNext ran, adds feeding added, more, List.append_assoc]

theorem accepted_step (feeding : Feeding graph taken wired) {link : Link} {next : Wired Target}
    (added : wired.addLinkUnder .lenient link = .ok next) :
    next.accepted = wired.accepted ++ if graph.accepts taken link then [link] else [] := by
  obtain ⟨other, addedOther, _, accepted⟩ := feeding.step link
  cases added.symm.trans addedOther
  exact accepted

theorem accepted_run (feeding : Feeding graph taken wired) {links : List Link} {last : Wired Target}
    (ran : links.foldlM (addLinkUnder .lenient) wired = .ok last) :
    last.accepted = wired.accepted ++ graph.acceptedAfter taken links :=
  listed_run (fun _ => rfl) (fun _ _ _ => rfl) (fun kept => kept.accepted_step) feeding ran

theorem contains_eq (feeding : Feeding graph taken wired) (id : NodeId) :
    wired.graph.contains id = graph.contains id := by
  have found := congrArg Option.isSome (feeding.nodes id)
  simpa [Graph.contains, Wired.node?] using found

theorem leads_iff (feeding : Feeding graph taken wired) {producer consumer : NodeId} :
    wired.Leads producer consumer ↔
      ∃ link ∈ taken, link.startNode = producer ∧ link.endNode = consumer ∧
        (touchesUnresolved graph link = true ∨
          graph.feeder? taken consumer link.endSlot = some link) := by
  unfold Leads
  constructor
  · rintro ⟨link, accepted, starts, rfl⟩
    obtain ⟨member, reason⟩ := (feeding.accepted link).1 accepted
    exact ⟨link, member, starts, rfl, reason⟩
  · rintro ⟨link, member, starts, rfl, reason⟩
    exact ⟨link, (feeding.accepted link).2 ⟨member, reason⟩, starts, rfl⟩

theorem exists_producer (feeding : Feeding graph taken wired) {producer consumer : NodeId}
    (leads : wired.Leads producer consumer) : ∃ node, graph.node? producer = some node := by
  obtain ⟨link, _, rfl, _, touches | first⟩ := feeding.leads_iff.1 leads
  · obtain ⟨node, _, found, _⟩ := Graph.exists_of_touches touches
    exact ⟨node, found⟩
  · obtain ⟨_, fits, _⟩ := Graph.feeder?_eq_some first
    obtain ⟨_, ⟨node, _, found, _⟩, _⟩ := Graph.fits_iff.1 fits
    exact ⟨node, found⟩

theorem exists_node_of_feeds (feeding : Feeding graph taken wired) {roots : List NodeId}
    {id : NodeId} (feeds : wired.Feeds roots id) : ∃ node, graph.node? id = some node := by
  obtain ⟨root, _, known, path⟩ := feeds
  rcases path.cases_head with rfl | ⟨next, leads, _⟩
  · rw [feeding.contains_eq] at known
    exact Graph.contains_iff.1 known
  · exact feeding.exists_producer leads

end Feeding

end Wired

/-- Wired leniently, every graph gives each slot the first link that fits it. -/
theorem Graph.wire_lenient [CallSite Target] (graph : Graph Target) :
    ∃ wired, graph.wire .lenient = .ok wired ∧ Wired.Feeding graph graph.links wired :=
  (Wired.Feeding.bare graph).run graph.links

theorem Graph.accepted_of_wire [CallSite Target] {graph : Graph Target} {wired : Wired Target}
    (wire : graph.wire .lenient = .ok wired) :
    wired.accepted = graph.acceptedAfter [] graph.links :=
  (Wired.Feeding.bare graph).accepted_run wire

end MaterialGraph
