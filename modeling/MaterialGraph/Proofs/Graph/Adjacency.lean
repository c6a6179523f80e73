import MaterialGraph.Proofs.Graph.Faults
import MaterialGraph.Table

/-!
Adjacency as two tables. Wiring may push each link that it accepts into a table of consumers, under
the node where the link starts, and into a table of producers, under the node where it ends, and
keep no list of links. What is then listed for a node is what `Wired.outgoing` and `Wired.incoming`
read off the accepted links, and the two tables are transposes of each other.
-/

set_option autoImplicit false

namespace MaterialGraph

namespace Table

variable {Key Value : Type} [DecidableEq Key]

def listed (key : Key) (table : Table Key (List Value)) : List Value :=
  (table.find? key).getD []

def push (key : Key) (value : Value) (table : Table Key (List Value)) : Table Key (List Value) :=
  table.insert key (table.listed key ++ [value])

theorem listed_push (table : Table Key (List Value)) (key other : Key) (value : Value) :
    (table.push key value).listed other =
      table.listed other ++ if key = other then [value] else [] := by
  unfold push listed
  by_cases same : key = other
  · subst same
    rw [find?_insert_self, if_pos rfl]
    rfl
  · rw [find?_insert_of_ne same, if_neg same, List.append_nil]

end Table

variable {Target : Type}

namespace Wired

theorem outgoing_append (graph : Graph Target) (accepted : List Link) (link : Link)
    (dropped : List LinkFault) (id : NodeId) :
    Wired.outgoing ⟨graph, accepted ++ [link], dropped⟩ id =
      Wired.outgoing ⟨graph, accepted, dropped⟩ id ++
        if link.startNode = id then [link.endNode] else [] := by
  unfold outgoing
  rw [List.filter_append, List.map_append, List.filter_singleton]
  by_cases here : link.startNode = id <;> simp [here]

theorem incoming_append (graph : Graph Target) (accepted : List Link) (link : Link)
    (dropped : List LinkFault) (id : NodeId) :
    Wired.incoming ⟨graph, accepted ++ [link], dropped⟩ id =
      Wired.incoming ⟨graph, accepted, dropped⟩ id ++
        if link.endNode = id then [link.startNode] else [] := by
  unfold incoming
  rw [List.filter_append, List.map_append, List.filter_singleton]
  by_cases here : link.endNode = id <;> simp [here]

end Wired

structure Tabled (Target : Type) where
  graph : Graph Target
  consumers : Table NodeId (List NodeId)
  producers : Table NodeId (List NodeId)
  dropped : List LinkFault

namespace Tabled

def bare (graph : Graph Target) : Tabled Target := ⟨(Wired.bare graph).graph, [], [], []⟩

def accept (tabled : Tabled Target) (link : Link) : Tabled Target :=
  { tabled with
    consumers := tabled.consumers.push link.startNode link.endNode
    producers := tabled.producers.push link.endNode link.startNode }

/-- Tables that list what a wiring lists, beside the same bindings and dropped links. -/
structure Reads (tabled : Tabled Target) (wired : Wired Target) : Prop where
  graph : tabled.graph = wired.graph
  dropped : tabled.dropped = wired.dropped
  consumers : ∀ id, tabled.consumers.listed id = wired.outgoing id
  producers : ∀ id, tabled.producers.listed id = wired.incoming id

variable {tabled : Tabled Target} {wired : Wired Target}

theorem reads_bare (graph : Graph Target) : (bare graph).Reads (.bare graph) :=
  ⟨rfl, rfl, fun _ => rfl, fun _ => rfl⟩

theorem Reads.accept (reads : tabled.Reads wired) (graph : Graph Target) (link : Link) :
    (Tabled.accept { tabled with graph } link).Reads
      { wired with graph, accepted := wired.accepted ++ [link] } where
  graph := rfl
  dropped := reads.dropped
  consumers := by
    intro id
    rw [Wired.outgoing_append]
    exact (Table.listed_push ..).trans (congrArg (· ++ _) (reads.consumers id))
  producers := by
    intro id
    rw [Wired.incoming_append]
    exact (Table.listed_push ..).trans (congrArg (· ++ _) (reads.producers id))

theorem Reads.drop (reads : tabled.Reads wired) (fault : LinkFault) :
    Reads { tabled with dropped := tabled.dropped ++ [fault] }
      { wired with dropped := wired.dropped ++ [fault] } :=
  ⟨reads.graph, by rw [reads.dropped], reads.consumers, reads.producers⟩

variable [CallSite Target]

def addLink (policy : LinkPolicy) (tabled : Tabled Target) (link : Link) :
    Except LinkFault (Tabled Target) :=
  if Wired.touchesUnresolved tabled.graph link then .ok (tabled.accept link)
  else
    match Wired.bindLink tabled.graph link, policy with
    | .ok graph, _ => .ok (accept { tabled with graph } link)
    | .error fault, .strict => .error fault
    | .error fault, .lenient => .ok { tabled with dropped := tabled.dropped ++ [fault] }

theorem Reads.step (reads : tabled.Reads wired) (policy : LinkPolicy) (link : Link) :
    (∃ fault, addLink policy tabled link = .error fault ∧
        wired.addLinkUnder policy link = .error fault) ∨
      ∃ next after, addLink policy tabled link = .ok next ∧
        wired.addLinkUnder policy link = .ok after ∧ next.Reads after := by
  obtain ⟨graph, consumers, producers, dropped⟩ := tabled
  obtain rfl : graph = wired.graph := reads.graph
  unfold addLink Wired.addLinkUnder Wired.addLink
  cases Wired.touchesUnresolved wired.graph link with
  | true => exact .inr ⟨_, _, rfl, rfl, reads.accept wired.graph link⟩
  | false =>
      cases Wired.bindLink wired.graph link with
      | ok graph => exact .inr ⟨_, _, rfl, rfl, reads.accept graph link⟩
      | error fault =>
          cases policy with
          | strict => exact .inl ⟨fault, rfl, rfl⟩
          | lenient => exact .inr ⟨_, _, rfl, rfl, reads.drop fault⟩

end Tabled

namespace Graph

variable [CallSite Target]

def wireTabled (graph : Graph Target) (policy : LinkPolicy) : Except LinkFault (Tabled Target) :=
  graph.links.foldlM (Tabled.addLink policy) (Tabled.bare graph)

/-- Wiring into tables fails where wiring does, with the same fault; else the tables list for every
node the consumers and the producers that are read off the accepted links. -/
theorem wireTabled_reads (graph : Graph Target) (policy : LinkPolicy) :
    (∃ fault, graph.wireTabled policy = .error fault ∧ graph.wire policy = .error fault) ∨
      ∃ tabled wired, graph.wireTabled policy = .ok tabled ∧ graph.wire policy = .ok wired ∧
        tabled.Reads wired :=
  foldlM_in_step (fun _ _ reads link => reads.step policy link) (Tabled.reads_bare graph)
    graph.links

/-- The table of producers is the transpose of the table of consumers, with multiplicities. -/
theorem count_consumers_eq_count_producers {graph : Graph Target} {policy : LinkPolicy}
    {tabled : Tabled Target} (wired : graph.wireTabled policy = .ok tabled)
    (producer consumer : NodeId) :
    (tabled.consumers.listed producer).count consumer =
      (tabled.producers.listed consumer).count producer := by
  rcases graph.wireTabled_reads policy with ⟨fault, failed, _⟩ | ⟨same, wiring, ran, _, reads⟩
  · cases wired.symm.trans failed
  · cases wired.symm.trans ran
    rw [reads.consumers, reads.producers, Wired.count_outgoing, Wired.count_incoming]

end Graph

end MaterialGraph
