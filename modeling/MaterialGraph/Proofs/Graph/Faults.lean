import MaterialGraph.Proofs.Graph.Feeding
import MaterialGraph.Proofs.Graph.Peeling

/-!
Which links are dropped, and why. A link that is wired leniently after others is accepted, or it is
dropped for the first reason that is met when its ends are looked up in order. The reason is read
off the graph and the links before it, so the whole list of faults is known from the links alone.
-/

set_option autoImplicit false

namespace MaterialGraph

variable {Target : Type}

namespace Graph

variable [CallSite Target]

/-- Why a link is dropped when it is wired after others, if it is. A link at an unresolved call
never is; an input slot counts as bound if one of the others feeds it. -/
def fault? (graph : Graph Target) (taken : List Link) (link : Link) : Option LinkFault :=
  if Wired.touchesUnresolved graph link then none
  else
    match graph.node? link.startNode with
    | none => some (.missingNode link link.startNode)
    | some producer =>
        match producer.output? link.startSlot with
        | none => some (.missingOutput link)
        | some _ =>
            match graph.node? link.endNode with
            | none => some (.missingNode link link.endNode)
            | some consumer =>
                match consumer.input? link.endSlot with
                | none => some (.missingInput link)
                | some _ =>
                    (graph.given taken link.endNode link.endSlot).map (.alreadyBound link)

def faultsAfter (graph : Graph Target) (taken : List Link) : List Link → List LinkFault
  | [] => []
  | link :: rest =>
      (graph.fault? taken link).toList ++ graph.faultsAfter (taken ++ [link]) rest

variable {graph : Graph Target}

theorem fault?_cases {taken : List Link} {link : Link} {fault : LinkFault}
    (faulty : graph.fault? taken link = some fault) :
    (∃ node, fault = .missingNode link node) ∨ fault = .missingOutput link ∨
      fault = .missingInput link ∨
      ∃ existing, graph.given taken link.endNode link.endSlot = some existing ∧
        fault = .alreadyBound link existing := by
  unfold fault? at faulty
  split at faulty
  · cases faulty
  split at faulty
  · exact .inl ⟨_, (Option.some.inj faulty).symm⟩
  split at faulty
  · exact .inr (.inl (Option.some.inj faulty).symm)
  split at faulty
  · exact .inl ⟨_, (Option.some.inj faulty).symm⟩
  split at faulty
  · exact .inr (.inr (.inl (Option.some.inj faulty).symm))
  · obtain ⟨existing, bound, rfl⟩ := Option.map_eq_some_iff.1 faulty
    exact .inr (.inr (.inr ⟨existing, bound, rfl⟩))

theorem link_of_fault? {taken : List Link} {link : Link} {fault : LinkFault}
    (faulty : graph.fault? taken link = some fault) : fault.link = link := by
  rcases fault?_cases faulty with ⟨_, rfl⟩ | rfl | rfl | ⟨_, _, rfl⟩ <;> rfl

theorem given_of_alreadyBound {taken : List Link} {link other : Link} {existing : Binding}
    (faulty : graph.fault? taken link = some (.alreadyBound other existing)) :
    other = link ∧ graph.given taken link.endNode link.endSlot = some existing := by
  rcases fault?_cases faulty with ⟨_, same⟩ | same | same | ⟨_, bound, same⟩
  · cases same
  · cases same
  · cases same
  · cases same
    exact ⟨rfl, bound⟩

theorem accepts_eq_isNone (taken : List Link) (link : Link) :
    graph.accepts taken link = (graph.fault? taken link).isNone := by
  unfold accepts fault?
  cases touches : Wired.touchesUnresolved graph link with
  | true => rfl
  | false =>
      cases start : graph.node? link.startNode with
      | none => simp [fits, touches, start]
      | some producer =>
          cases output : producer.output? link.startSlot with
          | none => simp [fits, touches, start, output]
          | some _ =>
              cases finish : graph.node? link.endNode with
              | none => simp [fits, touches, finish, output]
              | some consumer =>
                  cases input : consumer.input? link.endSlot with
                  | none => simp [fits, touches, finish, input, output]
                  | some _ => simp [fits, touches, start, finish, input, output, given]

theorem given_append (taken links : List Link) (id : NodeId) (slot : SlotId) :
    graph.given (taken ++ links) id slot =
      (graph.given taken id slot).or (graph.given links id slot) := by
  rw [given, feeder?_append, given, given, Option.map_or]

/-- The binding that a fault names is kept to the end. -/
theorem given_of_mem_faultsAfter {taken links : List Link} {link : Link} {existing : Binding}
    (dropped : .alreadyBound link existing ∈ graph.faultsAfter taken links) :
    graph.given (taken ++ links) link.endNode link.endSlot = some existing := by
  induction links generalizing taken with
  | nil => cases dropped
  | cons first rest induction =>
      rw [faultsAfter, List.mem_append, Option.mem_toList] at dropped
      rcases dropped with here | later
      · obtain ⟨rfl, bound⟩ := given_of_alreadyBound here
        rw [given_append, bound]
        rfl
      · simpa using induction later

/-- Every link is accepted or dropped, and none of them twice. -/
theorem acceptedAfter_append_faultsAfter_perm (taken links : List Link) :
    (graph.acceptedAfter taken links ++
      (graph.faultsAfter taken links).map LinkFault.link).Perm links := by
  induction links generalizing taken with
  | nil => exact .nil
  | cons link rest induction =>
      rw [acceptedAfter, faultsAfter, accepts_eq_isNone]
      cases faulty : graph.fault? taken link with
      | none => simpa using induction (taken ++ [link])
      | some fault =>
          simp only [Option.isNone_some, Bool.false_eq_true, if_false, List.nil_append,
            Option.toList_some, List.singleton_append, List.map_cons, link_of_fault? faulty]
          exact List.perm_middle.trans ((induction (taken ++ [link])).cons link)

theorem exists_input_of_given {links : List Link} {id : NodeId} {slot : SlotId} {binding : Binding}
    (bound : graph.given links id slot = some binding) :
    ∃ node input, graph.node? id = some node ∧ node.input? slot = some input := by
  obtain ⟨link, feeds, _⟩ := Option.map_eq_some_iff.1 bound
  obtain ⟨_, fits, rfl, rfl⟩ := feeder?_eq_some feeds
  exact (fits_iff.1 fits).2.2

end Graph

namespace Wired

theorem bindLink_keeps {link : Link} {before after : Graph Target}
    (bound : bindLink before link = .ok after) :
    after.name = before.name ∧ after.links = before.links ∧ after.roots = before.roots := by
  obtain ⟨_, _, rfl⟩ := Wires.bindLink_eq_ok bound
  exact ⟨rfl, rfl, rfl⟩

theorem count_outgoing (wired : Wired Target) (producer consumer : NodeId) :
    (wired.outgoing producer).count consumer =
      wired.accepted.countP fun link => link.startNode = producer ∧ link.endNode = consumer := by
  rw [outgoing, List.count, List.countP_map, List.countP_filter]
  congr 1
  funext link
  simp [Bool.beq_eq_decide_eq, Bool.and_comm]

variable [CallSite Target]

theorem addLinkUnder_keeps {policy : LinkPolicy} {wired next : Wired Target} {link : Link}
    (added : wired.addLinkUnder policy link = .ok next) :
    next.graph.name = wired.graph.name ∧ next.graph.links = wired.graph.links ∧
      next.graph.roots = wired.graph.roots := by
  unfold addLinkUnder at added
  split at added
  · rename_i taken
    cases added
    unfold addLink at taken
    split at taken
    · cases taken
      exact ⟨rfl, rfl, rfl⟩
    · split at taken
      · rename_i bound
        cases taken
        exact bindLink_keeps bound
      · cases taken
  · cases added
  · cases added
    exact ⟨rfl, rfl, rfl⟩

theorem wire_keeps {policy : LinkPolicy} {graph : Graph Target} {wired : Wired Target}
    (wire : graph.wire policy = .ok wired) :
    wired.graph.name = graph.name ∧ wired.graph.links = graph.links ∧
      wired.graph.roots = graph.roots := by
  refine foldlM_run (fun _ state => state.graph.name = graph.name ∧
    state.graph.links = graph.links ∧ state.graph.roots = graph.roots)
    ?_ [] ⟨rfl, rfl, rfl⟩ wire
  intro done link state next kept added
  obtain ⟨name, links, roots⟩ := addLinkUnder_keeps added
  exact ⟨name.trans kept.1, links.trans kept.2.1, roots.trans kept.2.2⟩

namespace Feeding

variable {graph : Graph Target} {taken : List Link} {wired : Wired Target}

theorem addLink_of_fault (feeding : Feeding graph taken wired) {link : Link} {fault : LinkFault}
    (faulty : graph.fault? taken link = some fault) : wired.addLink link = .error fault := by
  have start := feeding.nodes link.startNode
  have finish := feeding.nodes link.endNode
  unfold Wired.node? at start finish
  unfold Graph.fault? at faulty
  unfold addLink bindLink
  rw [feeding.touches_eq, start, finish]
  split at faulty
  · cases faulty
  rename_i resolved
  rw [if_neg resolved]
  split at faulty
  · rename_i absent
    cases faulty
    simp [absent]
  rename_i producer atStart
  have outputs : (producer.feed (graph.given taken link.startNode)).output? link.startSlot =
      producer.output? link.startSlot := rfl
  split at faulty
  · rename_i absent
    cases faulty
    simp [atStart, outputs, absent]
  rename_i output found
  split at faulty
  · rename_i absent
    cases faulty
    simp [atStart, outputs, found, absent]
  rename_i consumer atEnd
  have inputs := consumer.input?_feed (graph.given taken link.endNode) link.endSlot
  split at faulty
  · rename_i absent
    cases faulty
    simp [atStart, atEnd, outputs, found, inputs, absent]
  · rename_i input atSlot
    obtain ⟨existing, bound, rfl⟩ := Option.map_eq_some_iff.1 faulty
    simp [atStart, atEnd, outputs, found, inputs, atSlot, bound]

theorem dropped_step (feeding : Feeding graph taken wired) {link : Link} {next : Wired Target}
    (added : wired.addLinkUnder .lenient link = .ok next) :
    next.dropped = wired.dropped ++ (graph.fault? taken link).toList := by
  unfold addLinkUnder at added
  cases faulty : graph.fault? taken link with
  | some fault =>
      rw [feeding.addLink_of_fault faulty] at added
      cases added
      rfl
  | none =>
      have accepts : graph.accepts taken link = true := by
        rw [Graph.accepts_eq_isNone, faulty]
        rfl
      obtain ⟨after, taken, _⟩ := feeding.addLink_of_accepts accepts
      rw [taken] at added
      cases added
      rw [dropped_of_addLink taken]
      exact (List.append_nil _).symm

theorem dropped_run (feeding : Feeding graph taken wired) {links : List Link} {last : Wired Target}
    (ran : links.foldlM (addLinkUnder .lenient) wired = .ok last) :
    last.dropped = wired.dropped ++ graph.faultsAfter taken links :=
  listed_run (fun _ => rfl) (fun _ _ _ => rfl) (fun kept => kept.dropped_step) feeding ran

theorem binding?_eq (feeding : Feeding graph taken wired) (id : NodeId) (slot : SlotId) :
    wired.binding? id slot = graph.given taken id slot := by
  unfold binding?
  rw [feeding.nodes]
  cases found : graph.node? id with
  | none =>
      cases bound : graph.given taken id slot with
      | none => rfl
      | some binding =>
          obtain ⟨_, _, present, _⟩ := Graph.exists_input_of_given bound
          rw [found] at present
          cases present
  | some node =>
      simp only [Option.map_some, Node.input?_feed]
      cases atSlot : node.input? slot with
      | none =>
          cases bound : graph.given taken id slot with
          | none => rfl
          | some binding =>
              obtain ⟨_, _, present, there⟩ := Graph.exists_input_of_given bound
              rw [found] at present
              cases present
              rw [atSlot] at there
              cases there
      | some input => rfl

end Feeding

end Wired

/-- Wired leniently, every graph gives each input slot the first link of its list that fits it and
changes in nothing but its bindings. Links that feed a slot or touch an unresolved call are
accepted; each other link is dropped, with the first reason there is and, if that is a binding in
its way, with the binding that is kept. Producers and consumers agree on the accepted links. -/
theorem Graph.wire_lenient_firstFit [CallSite Target] (graph : Graph Target) :
    ∃ wired, graph.wire .lenient = .ok wired ∧
      (∀ id slot,
        wired.binding? id slot = (graph.feeder? graph.links id slot).map Link.binding) ∧
      (∀ id, wired.node? id =
        (graph.node? id).map fun node => node.feed (graph.given graph.links id)) ∧
      wired.graph.nodes.map Node.unbind = graph.nodes.map Node.unbind ∧
      (wired.graph.name = graph.name ∧ wired.graph.links = graph.links ∧
        wired.graph.roots = graph.roots) ∧
      wired.accepted = graph.acceptedAfter [] graph.links ∧
      wired.dropped = graph.faultsAfter [] graph.links ∧
      (wired.accepted ++ wired.dropped.map LinkFault.link).Perm graph.links ∧
      (∀ link existing, .alreadyBound link existing ∈ wired.dropped →
        wired.binding? link.endNode link.endSlot = some existing) ∧
      ∀ producer consumer,
        (wired.outgoing producer).count consumer = (wired.incoming consumer).count producer ∧
        (wired.outgoing producer).count consumer = wired.accepted.countP fun link =>
          link.startNode = producer ∧ link.endNode = consumer := by
  obtain ⟨wired, wire, feeding⟩ := graph.wire_lenient
  have accepted := Graph.accepted_of_wire wire
  have dropped : wired.dropped = graph.faultsAfter [] graph.links :=
    (Wired.Feeding.bare graph).dropped_run wire
  refine ⟨wired, wire, feeding.binding?_eq, feeding.nodes, (Graph.wires_of_wire wire).nodes,
    Wired.wire_keeps wire, accepted, dropped, ?_, ?_, ?_⟩
  · rw [accepted, dropped]
    exact Graph.acceptedAfter_append_faultsAfter_perm [] graph.links
  · intro link existing faulty
    rw [dropped] at faulty
    rw [feeding.binding?_eq]
    exact Graph.given_of_mem_faultsAfter faulty
  · intro producer consumer
    rw [Wired.count_outgoing, Wired.count_incoming]
    exact ⟨rfl, rfl⟩

end MaterialGraph
