import MaterialGraph.Proofs.Graph.Diagnostics
import MaterialGraph.Proofs.Graph.Feeding

/-!
Graphs that store the same nodes in another order. They are wired in step: each link is accepted by
both or refused by both. Their roots are fed by the same nodes, so both can be scheduled or neither,
and checking either schedule without a fault records the same types, whatever the layouts of the
nodes are: a node's check depends on its producers' types alone.
-/

set_option autoImplicit false

namespace MaterialGraph

variable {Target : Type}

namespace Wired

structure Mirrors (left right : Wired Target) : Prop where
  nodes : ∀ id, left.node? id = right.node? id
  accepted : left.accepted = right.accepted

theorem node?_bare (graph : Graph Target) (id : NodeId) :
    (Wired.bare graph).node? id = (graph.node? id).map Node.unbind := by
  unfold Wired.node? Wired.bare Graph.node?
  rw [List.find?_map]
  rfl

/-- A link is refused by both graphs for the same reason, or bound in both. -/
theorem bindLink_cases {left right : Graph Target} (same : ∀ id, left.node? id = right.node? id)
    (link : Link) :
    (∃ fault, bindLink left link = .error fault ∧ bindLink right link = .error fault) ∨
      ∃ next other, bindLink left link = .ok next ∧ bindLink right link = .ok other ∧
        ∀ id, next.node? id = other.node? id := by
  cases outcome : bindLink left link with
  | error fault =>
      refine Or.inl ⟨fault, rfl, ?_⟩
      simp only [bindLink, same] at outcome
      unfold bindLink
      split at outcome
      · rename_i noProducer
        simpa only [noProducer] using outcome
      rename_i producer foundProducer
      split at outcome
      · rename_i noOutput
        simpa only [foundProducer, noOutput] using outcome
      rename_i foundOutput
      split at outcome
      · rename_i noConsumer
        simpa only [foundProducer, foundOutput, noConsumer] using outcome
      rename_i consumer foundConsumer
      split at outcome
      · rename_i noInput
        simpa only [foundProducer, foundOutput, foundConsumer, noInput] using outcome
      rename_i input foundInput
      split at outcome
      · rename_i bound
        simpa only [foundProducer, foundOutput, foundConsumer, foundInput, bound] using outcome
      · cases outcome
  | ok next =>
      obtain ⟨⟨producer, output, foundProducer, foundOutput⟩,
        ⟨consumer, input, foundConsumer, foundInput, unbound⟩, rfl⟩ := Wires.bindLink_eq_ok outcome
      refine Or.inr ⟨_, { right with
        nodes := Graph.updateNode link.endNode (fun node => node.bind link.endSlot link.binding)
          right.nodes }, rfl, ?_, ?_⟩
      · rw [same] at foundProducer foundConsumer
        simp only [bindLink, foundProducer, foundOutput, foundConsumer, foundInput, unbound]
      · intro id
        have keeps : ∀ node : Node Target, (node.bind link.endSlot link.binding).id = node.id :=
          fun _ => rfl
        have here := same id
        unfold Graph.node? at here ⊢
        rw [Graph.updateNode, Graph.updateNode, find?_updateFirst keeps, find?_updateFirst keeps,
          here]

section Wiring

variable [CallSite Target] {left right : Wired Target}

namespace Mirrors

theorem touches_eq (mirrored : left.Mirrors right) (link : Link) :
    touchesUnresolved left.graph link = touchesUnresolved right.graph link := by
  have start := mirrored.nodes link.startNode
  have finish := mirrored.nodes link.endNode
  unfold Wired.node? at start finish
  unfold touchesUnresolved
  rw [start, finish]

theorem addLink_cases (mirrored : left.Mirrors right) (link : Link) :
    (∃ fault, left.addLink link = .error fault ∧ right.addLink link = .error fault) ∨
      ∃ next other, left.addLink link = .ok next ∧ right.addLink link = .ok other ∧
        next.Mirrors other := by
  have longer : left.accepted ++ [link] = right.accepted ++ [link] := by rw [mirrored.accepted]
  unfold addLink
  rw [mirrored.touches_eq]
  split
  · exact Or.inr ⟨_, _, rfl, rfl, mirrored.nodes, longer⟩
  · rcases bindLink_cases mirrored.nodes link with
      ⟨fault, failed, otherFailed⟩ | ⟨next, other, bound, otherBound, same⟩
    · rw [failed, otherFailed]
      exact Or.inl ⟨fault, rfl, rfl⟩
    · rw [bound, otherBound]
      exact Or.inr ⟨_, _, rfl, rfl, same, longer⟩

theorem addLinkUnder_cases (mirrored : left.Mirrors right) (policy : LinkPolicy) (link : Link) :
    (∃ fault, left.addLinkUnder policy link = .error fault ∧
      right.addLinkUnder policy link = .error fault) ∨
      ∃ next other, left.addLinkUnder policy link = .ok next ∧
        right.addLinkUnder policy link = .ok other ∧ next.Mirrors other := by
  unfold addLinkUnder
  rcases mirrored.addLink_cases link with
    ⟨fault, failed, otherFailed⟩ | ⟨next, other, added, otherAdded, same⟩
  · rw [failed, otherFailed]
    cases policy with
    | lenient => exact Or.inr ⟨_, _, rfl, rfl, mirrored.nodes, mirrored.accepted⟩
    | strict => exact Or.inl ⟨fault, rfl, rfl⟩
  · rw [added, otherAdded]
    exact Or.inr ⟨next, other, rfl, rfl, same⟩

end Mirrors

end Wiring

namespace Mirrors

variable {left right : Wired Target}

theorem contains_eq (mirrored : left.Mirrors right) (id : NodeId) :
    left.graph.contains id = right.graph.contains id :=
  congrArg Option.isSome (mirrored.nodes id)

theorem leads_eq (mirrored : left.Mirrors right) : left.Leads = right.Leads := by
  unfold Leads
  rw [mirrored.accepted]

theorem feeds_iff (mirrored : left.Mirrors right) {roots others : List NodeId}
    (same : ∀ id, id ∈ roots ↔ id ∈ others) (id : NodeId) :
    left.Feeds roots id ↔ right.Feeds others id := by
  unfold Feeds
  simp only [same, mirrored.contains_eq, mirrored.leads_eq]

theorem schedule_isOk_iff (mirrored : left.Mirrors right) {roots others : List NodeId}
    (same : ∀ id, id ∈ roots ↔ id ∈ others) :
    (∃ schedule, left.schedule roots = .ok schedule) ↔
      ∃ schedule, right.schedule others = .ok schedule := by
  rw [Wired.schedule_isOk_iff, Wired.schedule_isOk_iff]
  unfold HasCycle
  simp only [mirrored.feeds_iff same, mirrored.leads_eq]

theorem mem_order_iff (mirrored : left.Mirrors right) {roots others : List NodeId}
    (same : ∀ id, id ∈ roots ↔ id ∈ others) {schedule other : Schedule}
    (scheduled : left.schedule roots = .ok schedule)
    (otherScheduled : right.schedule others = .ok other) (id : NodeId) :
    id ∈ schedule.order ↔ id ∈ other.order := by
  rw [mem_order scheduled, mem_order otherScheduled, mirrored.feeds_iff same]

end Mirrors

theorem Wires.orderly {graph : Graph Target} {wired : Wired Target} (wires : Wires graph wired)
    {roots : List NodeId} {schedule : Schedule} (scheduled : wired.schedule roots = .ok schedule) :
    Typing.Orderly wired schedule.order where
  once := nodup_order scheduled
  known := by
    intro id member
    exact Graph.contains_iff.2
      (exists_node_of_feeds wires.exists_producer ((mem_order scheduled).1 member))
  producersFirst := by
    apply producersFirst_of_leads _ scheduled
    intro id node found input member binding bound
    obtain ⟨nodeMember, named⟩ := Graph.mem_of_node? found
    exact named ▸ wires.leads node nodeMember input member binding bound

end Wired

/-- Both graphs are refused for the same link, or both are wired. -/
theorem Graph.wire_cases [CallSite Target] {left right : Graph Target}
    (same : ∀ id, left.node? id = right.node? id) (links : right.links = left.links)
    (policy : LinkPolicy) :
    (∃ fault, left.wire policy = .error fault ∧ right.wire policy = .error fault) ∨
      ∃ next other, left.wire policy = .ok next ∧ right.wire policy = .ok other ∧
        next.Mirrors other := by
  unfold Graph.wire
  rw [links]
  have start : (Wired.bare left).Mirrors (Wired.bare right) := by
    refine ⟨fun id => ?_, rfl⟩
    rw [Wired.node?_bare, Wired.node?_bare, same]
  have keeps := fun (wired other : Wired Target) (mirrored : wired.Mirrors other) (link : Link) =>
    mirrored.addLinkUnder_cases policy link
  exact foldlM_in_step keeps start left.links

namespace Typing

theorem checkAll_congr {left right : Wired Target} (mirrored : left.Mirrors right)
    (stopAtFirst : Bool) (order : List NodeId) (table : TypeTable) :
    checkAll left stopAtFirst order table = checkAll right stopAtFirst order table := by
  have step : check left = check right := by
    funext table id
    rw [check, check, mirrored.nodes]
  induction order generalizing table with
  | nil => rfl
  | cons id rest ih => simp only [checkAll, step, ih]

theorem Orderly.of_mirrors {left right : Wired Target} {order : List NodeId}
    (orderly : Orderly left order) (mirrored : left.Mirrors right) : Orderly right order where
  once := orderly.once
  known := fun id member => mirrored.contains_eq id ▸ orderly.known id member
  producersFirst := by
    intro before id after split node found
    exact orderly.producersFirst before id after split node ((mirrored.nodes id).trans found)

theorem inputType_congr {table other : TypeTable} {input : InputSlot}
    (same : ∀ binding, input.binding = some binding →
      table.find? (binding.node, binding.output) = other.find? (binding.node, binding.output)) :
    inputType table input = inputType other input := by
  have arrives : arrivingType table input = arrivingType other input := by
    unfold arrivingType
    split
    · rename_i binding bound
      rw [same binding bound]
    · rfl
  unfold inputType
  rw [arrives]

theorem inputTypes_congr {table other : TypeTable} {inputs : List InputSlot}
    (same : ∀ input ∈ inputs, ∀ binding, input.binding = some binding →
      table.find? (binding.node, binding.output) = other.find? (binding.node, binding.output)) :
    inputTypes table inputs = inputTypes other inputs := by
  induction inputs with
  | nil => rfl
  | cons input rest ih =>
      rw [inputTypes, inputTypes, inputType_congr (same input List.mem_cons_self),
        ih fun slot member => same slot (List.mem_cons_of_mem _ member)]

theorem find?_record_congr {id : NodeId} {table other : TypeTable} (inferred : Option ValueType)
    (outputs : List OutputSlot)
    (same : ∀ slot, table.find? (id, slot) = other.find? (id, slot)) (slot : SlotId) :
    (record id inferred outputs table).find? (id, slot) =
      (record id inferred outputs other).find? (id, slot) := by
  induction outputs generalizing table other with
  | nil => exact same slot
  | cons output rest ih =>
      apply ih
      intro slot
      cases typed : output.type.or inferred with
      | none => simpa only [typed] using same slot
      | some type =>
          simp only [typed]
          by_cases here : output.id = slot
          · rw [here, Table.find?_insert_self, Table.find?_insert_self]
          · have different : (id, output.id) ≠ (id, slot) := fun equal =>
              here (congrArg Prod.snd equal)
            rw [Table.find?_insert_of_ne different, Table.find?_insert_of_ne different, same]

theorem checkNode_eq_ok {table next : TypeTable} {node : Node Target}
    (passed : checkNode table node = .ok next) :
    ∃ operands inferred, inputTypes table node.inputs = .ok operands ∧
      inferredType node.kind operands = .ok inferred ∧
      next = record node.id inferred node.outputs table := by
  unfold checkNode at passed
  split at passed
  · cases passed
  · rename_i operands typed
    split at passed
    · cases passed
    · rename_i inferred combined
      cases passed
      exact ⟨operands, inferred, typed, combined, rfl⟩

theorem find?_check_of_ne {wired : Wired Target} {table next : TypeTable} {id other : NodeId}
    (passed : check wired table id = .ok next) (different : id ≠ other) (slot : SlotId) :
    next.find? (other, slot) = table.find? (other, slot) := by
  unfold check at passed
  split at passed
  · cases passed
    rfl
  · rename_i node found
    obtain ⟨_, _, _, _, rfl⟩ := checkNode_eq_ok passed
    rw [(Graph.mem_of_node? found).2]
    exact find?_record_of_ne different _ _ _ slot

theorem find?_checkAll_of_notMem {wired : Wired Target} {stopAtFirst : Bool} {order : List NodeId}
    {table : TypeTable} {id : NodeId} (absent : id ∉ order) (slot : SlotId) :
    (checkAll wired stopAtFirst order table).1.find? (id, slot) = table.find? (id, slot) := by
  induction order generalizing table with
  | nil => rfl
  | cons first rest ih =>
      rw [List.mem_cons, not_or] at absent
      unfold checkAll
      split
      · rename_i next passed
        rw [ih absent.2, find?_check_of_ne passed (Ne.symm absent.1)]
      · split
        · rfl
        · exact ih absent.2

/-- A node passes against a table that holds for it what the check records. -/
def Settled (wired : Wired Target) (table : TypeTable) (id : NodeId) : Prop :=
  ∃ node operands inferred, wired.node? id = some node ∧
    inputTypes table node.inputs = .ok operands ∧ inferredType node.kind operands = .ok inferred ∧
    ∀ slot, table.find? (id, slot) = (record id inferred node.outputs []).find? (id, slot)

theorem checkAll_settled {wired : Wired Target} {checked rest : List NodeId} {table : TypeTable}
    (orderly : Orderly wired (checked ++ rest))
    (fresh : ∀ id ∈ rest, ∀ slot, table.find? (id, slot) = none)
    (clean : (checkAll wired false rest table).2 = []) :
    ∀ id ∈ rest, Settled wired (checkAll wired false rest table).1 id := by
  induction rest generalizing checked table with
  | nil => simp
  | cons id rest ih =>
      have again : checked ++ id :: rest = checked ++ [id] ++ rest := by simp
      obtain ⟨restOnce, apart⟩ := (List.nodup_append.1 orderly.once).2
      rw [List.nodup_cons] at restOnce
      obtain ⟨node, found⟩ := Graph.contains_iff.1 (orderly.known id (by simp))
      have foundHere : wired.node? id = some node := found
      have named := (Graph.mem_of_node? found).2
      unfold checkAll at clean ⊢
      cases outcome : check wired table id with
      | error fault => simp [outcome] at clean
      | ok next =>
          simp only [outcome] at clean ⊢
          have freshNext : ∀ other ∈ rest, ∀ slot, next.find? (other, slot) = none := by
            intro other member slot
            have different : id ≠ other := fun same => restOnce.1 (same ▸ member)
            rw [find?_check_of_ne outcome different]
            exact fresh other (List.mem_cons_of_mem _ member) slot
          have later := ih (again ▸ orderly) freshNext clean
          intro other member
          rcases List.mem_cons.1 member with rfl | behind
          · have passed : checkNode table node = .ok next := by
              rwa [check, foundHere] at outcome
            obtain ⟨operands, inferred, typed, combined, rfl⟩ := checkNode_eq_ok passed
            -- The later checks leave alone the node's own types and those of its producers.
            refine ⟨node, operands, inferred, found, ?_, combined, ?_⟩
            · rw [← typed]
              apply inputTypes_congr
              intro input inputMember binding bound
              have earlier := orderly.producersFirst checked other rest rfl node found input
                inputMember binding bound
              have notLater : binding.node ∉ rest := fun late =>
                apart _ earlier _ (List.mem_cons_of_mem _ late) rfl
              have notHere : other ≠ binding.node := fun same =>
                apart _ earlier _ List.mem_cons_self same.symm
              rw [find?_checkAll_of_notMem notLater, find?_check_of_ne outcome notHere]
            · intro slot
              rw [find?_checkAll_of_notMem restOnce.1, named]
              exact find?_record_congr inferred node.outputs
                (fun slot => fresh other List.mem_cons_self slot) slot
          · exact later other behind

/-- Against a table in which its nodes are settled, a list is checked without a fault. -/
theorem checkAll_of_settled {wired : Wired Target} {checked rest : List NodeId}
    {table final : TypeTable} (orderly : Orderly wired (checked ++ rest))
    (settled : ∀ id ∈ rest, Settled wired final id)
    (known : ∀ id ∈ checked, ∀ slot, table.find? (id, slot) = final.find? (id, slot))
    (fresh : ∀ id ∈ rest, ∀ slot, table.find? (id, slot) = none) :
    (checkAll wired false rest table).2 = [] ∧ ∀ id ∈ rest, ∀ slot,
      (checkAll wired false rest table).1.find? (id, slot) = final.find? (id, slot) := by
  induction rest generalizing checked table with
  | nil => simp [checkAll]
  | cons id rest ih =>
      have again : checked ++ id :: rest = checked ++ [id] ++ rest := by simp
      obtain ⟨restOnce, apart⟩ := (List.nodup_append.1 orderly.once).2
      rw [List.nodup_cons] at restOnce
      obtain ⟨node, operands, inferred, found, typed, combined, holds⟩ :=
        settled id List.mem_cons_self
      have named := (Graph.mem_of_node? found).2
      have typedHere : inputTypes table node.inputs = .ok operands := by
        rw [← typed]
        apply inputTypes_congr
        intro input inputMember binding bound
        exact known _ (orderly.producersFirst checked id rest rfl node found input inputMember
          binding bound) _
      have passed : check wired table id = .ok (record id inferred node.outputs table) := by
        simp only [check, found, checkNode, typedHere, combined, named]
      have recorded : ∀ slot, (record id inferred node.outputs table).find? (id, slot) =
          final.find? (id, slot) := by
        intro slot
        rw [holds]
        exact find?_record_congr inferred node.outputs
          (fun slot => fresh id List.mem_cons_self slot) slot
      have knownNext : ∀ other ∈ checked ++ [id], ∀ slot,
          (record id inferred node.outputs table).find? (other, slot) =
            final.find? (other, slot) := by
        intro other member slot
        rcases List.mem_append.1 member with old | new
        · rw [find?_record_of_ne fun same => apart other old id List.mem_cons_self same.symm]
          exact known other old slot
        · rw [List.mem_singleton.1 new]
          exact recorded slot
      have freshNext : ∀ other ∈ rest, ∀ slot,
          (record id inferred node.outputs table).find? (other, slot) = none := by
        intro other member slot
        have different : id ≠ other := fun same => restOnce.1 (same ▸ member)
        rw [find?_record_of_ne different]
        exact fresh other (List.mem_cons_of_mem _ member) slot
      obtain ⟨clean, holdsLater⟩ := ih (again ▸ orderly)
        (fun other member => settled other (List.mem_cons_of_mem _ member)) knownNext freshNext
      unfold checkAll
      simp only [passed]
      refine ⟨clean, ?_⟩
      intro other member slot
      rcases List.mem_cons.1 member with rfl | behind
      · rw [find?_checkAll_of_notMem restOnce.1, recorded]
      · exact holdsLater other behind slot

/-- Two orderly lists of the same nodes: if checking one finds no fault, neither does checking the
other, and both record the same types. -/
theorem checkAll_reordered {wired : Wired Target} {order other : List NodeId}
    (orderly : Orderly wired order) (otherOrderly : Orderly wired other)
    (same : ∀ id, id ∈ order ↔ id ∈ other) (clean : (checkAll wired false order []).2 = []) :
    (checkAll wired false other []).2 = [] ∧
      ∀ key, (checkAll wired false other []).1.find? key =
        (checkAll wired false order []).1.find? key := by
  have fresh : ∀ ids : List NodeId, ∀ id ∈ ids, ∀ slot,
      Table.find? (id, slot) ([] : TypeTable) = none := fun _ _ _ _ => rfl
  have fromStart : Orderly wired ([] ++ order) := orderly
  have otherFromStart : Orderly wired ([] ++ other) := otherOrderly
  have settled := checkAll_settled fromStart (fresh order) clean
  obtain ⟨otherClean, holds⟩ := checkAll_of_settled otherFromStart
    (fun id member => settled id ((same id).2 member)) (by simp) (fresh other)
  refine ⟨otherClean, ?_⟩
  rintro ⟨id, slot⟩
  by_cases member : id ∈ other
  · exact holds id member slot
  · rw [find?_checkAll_of_notMem member,
      find?_checkAll_of_notMem fun listed => member ((same id).1 listed)]

end Typing

end MaterialGraph
