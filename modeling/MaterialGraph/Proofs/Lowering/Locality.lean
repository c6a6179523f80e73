import MaterialGraph.Proofs.Lowering.Run

/-!
Lowering is local. It looks at no node but those that feed what is lowered, and not at their names.
Two bodies that agree on these take the same steps, to the same expressions or the same error,
however many other nodes they hold: the bound on unfinished nodes makes no difference, for in an
order with producers first it is never reached.
-/

set_option autoImplicit false

namespace MaterialGraph.Lowering

/-- Bodies with the same nodes in an order, but for their names, where producers come first. -/
structure Alike (order : List NodeId) (left right : Body) : Prop where
  types : left.types = right.types
  arguments : left.arguments = right.arguments
  scope : left.scope = right.scope
  distinct : order.Nodup
  nodes : ∀ id ∈ order, ∃ node name, left.wired.node? id = some node ∧
    right.wired.node? id = some (node.withName name)
  earlier : ∀ id ∈ order, ∀ node, left.wired.node? id = some node → ∀ input ∈ node.inputs,
    ∀ binding, input.binding = some binding → order.idxOf binding.node < order.idxOf id

variable {order : List NodeId} {left right : Body} {leftDemand rightDemand : Demand} {id : NodeId}
  {node : MaterialNode}

theorem outputOf_eq (alike : Alike order left right) (member : id ∈ order)
    (demands : leftDemand id = rightDemand id) (slot : SlotId) :
    outputOf left leftDemand id slot = outputOf right rightDemand id slot := by
  obtain ⟨node, name, found, foundToo⟩ := alike.nodes id member
  unfold outputOf
  rw [demands]
  simp only [found, foundToo]
  rfl

theorem inputOf_eq (alike : Alike order left right) (member : id ∈ order)
    (demands : ∀ producer ∈ order, order.idxOf producer < order.idxOf id →
      leftDemand producer = rightDemand producer) (slot : SlotId) :
    inputOf left leftDemand id slot = inputOf right rightDemand id slot := by
  obtain ⟨node, name, found, foundToo⟩ := alike.nodes id member
  have same : (node.withName name).input? slot = node.input? slot := rfl
  unfold inputOf
  simp only [found, foundToo, Option.bind_some, same]
  cases slotFound : node.input? slot with
  | none => rfl
  | some input =>
      simp only
      cases bound : input.binding with
      | none => cases input.default <;> rfl
      | some binding =>
          have before := alike.earlier id member node found input (Node.mem_of_input? slotFound).1
            binding bound
          have producer : binding.node ∈ order := List.idxOf_lt_length_iff.1
            (before.trans (List.idxOf_lt_length_of_mem member))
          simp only [outputOf_eq alike producer (demands _ producer before)]

theorem operandOf_eq (alike : Alike order left right) (member : id ∈ order)
    (demands : ∀ producer ∈ order, order.idxOf producer < order.idxOf id →
      leftDemand producer = rightDemand producer) (slot : SlotId) :
    operandOf left leftDemand id slot = operandOf right rightDemand id slot := by
  unfold operandOf
  rw [inputOf_eq alike member demands]

theorem lowerNode_eq (alike : Alike order left right) (member : id ∈ order)
    (named : node.id = id)
    (demands : ∀ producer ∈ order, order.idxOf producer < order.idxOf id →
      leftDemand producer = rightDemand producer) (inline : Inline) (name : String) :
    lowerNode left leftDemand inline node =
      lowerNode right rightDemand inline (node.withName name) := by
  have operand := operandOf_eq alike member demands
  have qualified : left.qualified = right.qualified := by
    funext text
    simp only [Body.qualified, alike.scope]
  subst named
  obtain ⟨id, oldName, kind, inputs, outputs⟩ := node
  cases kind with
  | output block => rfl
  | constant value parameter => simp only [lowerNode, Node.withName, qualified]
  | textureRef texture source => simp only [lowerNode, Node.withName, qualified]
  | textureSample =>
      have level := inputOf_eq alike member demands Kind.levelSlot
      simp only [lowerNode, Node.withName, operand, level]
  | math op =>
      have operands : (inputs.mapM fun input => operandOf left leftDemand id input.id) =
          inputs.mapM fun input => operandOf right rightDemand id input.id :=
        mapM_congr fun input _ => operand input.id
      simp only [lowerNode, Node.withName, operands, alike.types]
  | functionInput formal type default =>
      simp only [lowerNode, Node.withName, alike.arguments, freeInput, qualified]
  | functionOutput formal accepts => simp only [lowerNode, Node.withName, operand]
  | call target =>
      cases target with
      | unresolved path reason => rfl
      | resolved callee =>
          have called : left.called id callee = right.called id callee := by
            funext arguments
            simp only [Body.called, alike.scope]
          simp only [lowerNode, Node.withName, operand, called]

/-- The value of a node does not depend on bounds that are beyond its place in the order. -/
theorem demandWithin_eq (alike : Alike order left right) (inline : Inline)
    {leftBound rightBound : Nat} (member : id ∈ order) (leftEnough : order.idxOf id < leftBound)
    (rightEnough : order.idxOf id < rightBound) :
    demandWithin left inline leftBound id = demandWithin right inline rightBound id := by
  induction leftBound generalizing rightBound id with
  | zero => cases leftEnough
  | succ leftBound induction =>
      cases rightBound with
      | zero => cases rightEnough
      | succ rightBound =>
          obtain ⟨node, name, found, foundToo⟩ := alike.nodes id member
          have demands : ∀ producer ∈ order, order.idxOf producer < order.idxOf id →
              demandWithin left inline leftBound producer =
                demandWithin right inline rightBound producer := by
            intro producer listed before
            exact induction listed (by omega) (by omega)
          have lowered := lowerNode_eq alike member (Graph.mem_of_node? found).2 demands inline name
          unfold demandWithin
          simp only [found, foundToo, lowered]

theorem length_order_le {body : Body} (distinct : order.Nodup)
    (nodes : ∀ id ∈ order, ∃ node, body.wired.node? id = some node) :
    order.length ≤ body.wired.graph.nodes.length := by
  have listed : order ⊆ body.wired.graph.ids := by
    intro id member
    obtain ⟨node, found⟩ := nodes id member
    obtain ⟨stored, named⟩ := Graph.mem_of_node? found
    exact named ▸ List.mem_map_of_mem stored
  have short := (List.subperm_of_subset distinct listed).length_le
  rwa [Graph.ids, List.length_map] at short

theorem valueOf_eq (alike : Alike order left right) (inline : Inline) (member : id ∈ order) :
    valueOf left inline id = valueOf right inline id := by
  have place := List.idxOf_lt_length_of_mem member
  have leftLength : order.length ≤ left.wired.graph.nodes.length :=
    length_order_le alike.distinct fun other listed =>
      have ⟨node, _, found, _⟩ := alike.nodes other listed
      ⟨node, found⟩
  have rightLength : order.length ≤ right.wired.graph.nodes.length :=
    length_order_le alike.distinct fun other listed =>
      have ⟨node, name, _, found⟩ := alike.nodes other listed
      ⟨node.withName name, found⟩
  exact demandWithin_eq alike inline member (by omega) (by omega)

theorem lowerAll_eq (alike : Alike order left right) (inline : Inline) {ids : List NodeId}
    (among : ∀ id ∈ ids, id ∈ order) : lowerAll left inline ids = lowerAll right inline ids := by
  induction ids with
  | nil => rfl
  | cons first rest induction =>
      rw [List.forall_mem_cons] at among
      unfold lowerAll
      rw [valueOf_eq alike inline among.1, induction among.2]

section Results

variable {root : NodeId}

theorem connected_eq (alike : Alike order left right) (member : root ∈ order)
    (slots : List InputSlot) : left.connected root slots = right.connected root slots := by
  have input : left.input root = right.input root := by
    funext slot
    exact inputOf_eq alike member (fun producer listed _ => valueOf_eq alike inline listed) slot
  induction slots with
  | nil => rfl
  | cons slot rest induction =>
      unfold Body.connected
      rw [input, induction]

theorem exposed_eq (alike : Alike order left right) (member : root ∈ order)
    (slots : List OutputSlot) : left.exposed root slots = right.exposed root slots := by
  have output : left.output root = right.output root := by
    funext slot
    exact outputOf_eq alike member (valueOf_eq alike inline member) slot
  induction slots with
  | nil => rfl
  | cons slot rest induction =>
      unfold Body.exposed
      rw [output, induction]

theorem results_eq (alike : Alike order left right) (member : root ∈ order) :
    left.results root = right.results root := by
  obtain ⟨⟨id, oldName, kind, inputs, outputs⟩, name, found, foundToo⟩ := alike.nodes root member
  unfold Body.results
  simp only [found, foundToo, Node.withName]
  cases kind with
  | output block => exact connected_eq alike member inputs
  | _ => exact exposed_eq alike member outputs

end Results

end MaterialGraph.Lowering

namespace MaterialGraph.Wired

open Lowering

/-- Two graphs lower a root alike: to the same expressions and results, or to the same error. -/
theorem lowerRoot_eq {left right : WiredMaterial} {types : TypeTable} {schedule : Schedule}
    (alike : Alike schedule.order (.top left types) (.top right types)) {root : NodeId}
    (member : root ∈ schedule.order) :
    left.lowerRoot schedule types root = right.lowerRoot schedule types root := by
  have build := lowerAll_eq alike inline fun _ listed => listed
  have results := results_eq alike member
  unfold lowerRoot Body.build
  simp only [build, results]

end MaterialGraph.Wired
