import MaterialGraph.Proofs.Callable.Formals
import MaterialGraph.Proofs.Graph.Edits
import MaterialGraph.Proofs.Graph.Scheduling
import MaterialGraph.Proofs.Graph.Typing
import MaterialGraph.Proofs.Graph.Wiring
import Mathlib.Data.List.Basic
import Mathlib.Data.List.Forall2
import Mathlib.Data.List.Permutation
import Mathlib.Logic.Relation

/-!
Bodies that are ready to be lowered. Wiring a graph of nodes as authors make them gives a coherent
body; once it is scheduled and checked, every node of the schedule is resolved and valid, stands
behind its producers, and has the types of its outputs recorded.
-/

set_option autoImplicit false

namespace MaterialGraph

/-- A graph that holds each identifier once, of nodes as authors make them, whose calls are of
callables made from such graphs. -/
structure Graph.Built (graph : Material) : Prop where
  distinct : graph.ids.Nodup
  nodes : ∀ node ∈ graph.nodes, node.Built
  callees : ∀ node ∈ graph.nodes, node.kind.CalleeBuilt

namespace Graph

namespace Built

theorem empty (name : String) : (Graph.empty name : Material).Built :=
  ⟨List.nodup_nil, fun _ member => absurd member List.not_mem_nil,
    fun _ member => absurd member List.not_mem_nil⟩

theorem insert {graph : Material} (built : graph.Built) {node : MaterialNode} (made : node.Built)
    (callees : node.kind.CalleeBuilt) : (graph.insert node).Built := by
  refine ⟨nodup_putNode built.distinct, ?_, ?_⟩
  · intro other member
    rcases mem_putNode member with rfl | old
    · exact made
    · exact built.nodes other old
  · intro other member
    rcases mem_putNode member with rfl | old
    · exact callees
    · exact built.callees other old

theorem connect {graph : Material} (built : graph.Built) (link : Link) :
    (graph.connect link).Built := ⟨built.distinct, built.nodes, built.callees⟩

theorem markRoot {graph : Material} (built : graph.Built) (id : NodeId) :
    (graph.markRoot id).Built := by
  unfold Graph.markRoot
  split
  · exact built
  · exact ⟨built.distinct, built.nodes, built.callees⟩

end Built

end Graph

namespace Wired

theorem producersFirst_of_leads {Target : Type} {wired : Wired Target}
    (leads : ∀ {id node}, wired.node? id = some node → ∀ {input}, input ∈ node.inputs →
      ∀ {binding}, input.binding = some binding → wired.Leads binding.node id)
    {roots : List NodeId} {schedule : Schedule} (scheduled : wired.schedule roots = .ok schedule) :
    Typing.ProducersFirst wired schedule.order := by
  intro before id after split node found input member binding bound
  have leads := leads found member bound
  have feeds : wired.Feeds roots id := (mem_order scheduled).1 (by simp [split])
  have earlier := idxOf_lt_idxOf_of_leads scheduled leads feeds
  have once := nodup_order scheduled
  rw [split] at earlier once
  have notBefore : id ∉ before := fun old =>
    (List.nodup_append.1 once).2.2 id old id List.mem_cons_self rfl
  rw [List.idxOf_append_of_notMem notBefore, List.idxOf_cons_self] at earlier
  by_contra later
  rw [List.idxOf_append_of_notMem later] at earlier
  omega

/-- A wired graph whose nodes keep the slots of their kinds and whose bindings follow accepted links
to output slots that exist. -/
structure Coherent (wired : WiredMaterial) : Prop where
  distinct : wired.graph.ids.Nodup
  laid : ∀ {id node}, wired.node? id = some node → node.Laid
  callees : ∀ {id node}, wired.node? id = some node → node.kind.CalleeBuilt
  leads : ∀ {id node}, wired.node? id = some node → ∀ {input}, input ∈ node.inputs →
    ∀ {binding}, input.binding = some binding → wired.Leads binding.node id
  bound : ∀ {id node}, wired.node? id = some node → ∀ {input}, input ∈ node.inputs →
    ∀ {binding}, input.binding = some binding →
      ∃ producer output, wired.node? binding.node = some producer ∧
        producer.output? binding.output = some output
  present : ∀ {producer consumer}, wired.Leads producer consumer →
    ∃ node, wired.node? producer = some node

theorem coherent_of_wire {graph : Material} (built : graph.Built) {policy : LinkPolicy}
    {wired : WiredMaterial} (wire : graph.wire policy = .ok wired) : wired.Coherent := by
  have wires := Graph.wires_of_wire wire
  have original : ∀ {id node}, wired.node? id = some node →
      ∃ old ∈ graph.nodes, old.unbind = node.unbind := by
    intro id node found
    obtain ⟨old, foundOld, same⟩ := wires.original found
    exact ⟨old, (Graph.mem_of_node? foundOld).1, same⟩
  refine ⟨wires.ids_eq ▸ built.distinct, ?_, ?_, ?_, ?_, ?_⟩
  · intro id node found
    obtain ⟨old, member, same⟩ := original found
    rw [← Node.laid_unbind, ← same, Node.laid_unbind]
    exact (built.nodes old member).laid
  · intro id node found
    obtain ⟨old, member, same⟩ := original found
    have kinds : old.kind = node.kind := congrArg (fun node => node.kind) same
    exact kinds ▸ built.callees old member
  · intro id node found input member binding bound
    obtain ⟨nodeMember, named⟩ := Graph.mem_of_node? found
    exact named ▸ wires.leads node nodeMember input member binding bound
  · intro id node found input member binding bound
    obtain ⟨producer, output, foundProducer, foundOutput⟩ :=
      wires.feeds node (Graph.mem_of_node? found).1 input member binding bound
    obtain ⟨wiredProducer, foundWired, same⟩ := wires.wiredNode foundProducer
    have outputs : producer.outputs = wiredProducer.outputs :=
      congrArg (fun node => node.outputs) same
    refine ⟨wiredProducer, output, foundWired, ?_⟩
    unfold Node.output? at foundOutput ⊢
    rwa [← outputs]
  · rintro producer consumer ⟨link, accepted, rfl, _⟩
    obtain ⟨old, found⟩ := Graph.contains_iff.1 (wires.present link accepted).1
    obtain ⟨node, foundNode, _⟩ := wires.wiredNode found
    exact ⟨node, foundNode⟩

namespace Coherent

variable {wired : WiredMaterial}

theorem outputsDistinct (coherent : wired.Coherent) : Typing.OutputsDistinct wired := by
  intro id node found
  rw [(coherent.laid found).outputs]
  exact Kind.outputs_nodup (coherent.callees found)

theorem input?_of_mem (coherent : wired.Coherent) {id : NodeId} {node : MaterialNode}
    (found : wired.node? id = some node) {input : InputSlot} (member : input ∈ node.inputs) :
    node.input? input.id = some input :=
  (coherent.laid found).input?_of_mem (Kind.inputs_nodup (coherent.callees found)) member

theorem output?_of_mem (coherent : wired.Coherent) {id : NodeId} {node : MaterialNode}
    (found : wired.node? id = some node) {output : OutputSlot} (member : output ∈ node.outputs) :
    node.output? output.id = some output :=
  (coherent.laid found).output?_of_mem (Kind.outputs_nodup (coherent.callees found)) member

theorem exists_output_type (coherent : wired.Coherent) {id : NodeId} {node : MaterialNode}
    (found : wired.node? id = some node) (valid : Typing.Valid wired id) {output : OutputSlot}
    (member : output ∈ node.outputs) :
    ∃ type, Typing.Derivable wired (.output id output.id type) := by
  obtain ⟨inferred, derived⟩ := valid
  have laid := coherent.laid found
  obtain ⟨operands, fed, combined⟩ := (Typing.derivable_node_iff found).1 derived
  have listed := laid.outputs ▸ member
  -- Outputs declare their types, except those of operations and of formal outputs.
  have typed : ∃ type, output.type.or inferred = some type := by
    cases kind : node.kind with
    | math op =>
        rw [kind] at combined
        obtain ⟨type, _, rfl⟩ := Typing.inferredType_math.1 combined
        exact ⟨_, Option.or_some⟩
    | functionOutput name accepts =>
        have layouts := laid.inputs
        rw [kind] at combined layouts
        obtain ⟨input, _, fits, _, inputs⟩ := List.forall₂_cons_left_iff.1 layouts
        rw [inputs] at fed
        obtain ⟨_, _, first, _, rfl⟩ := List.forall₂_cons_left_iff.1 fed
        obtain ⟨type, rfl⟩ := Typing.exists_type_of_required first fits.required
        cases combined
        exact ⟨_, Option.or_some⟩
    | textureSample =>
        rw [kind] at listed
        simp only [Kind.outputs, List.mem_cons, List.not_mem_nil, or_false] at listed
        rcases listed with rfl | rfl | rfl | rfl | rfl | rfl <;> exact ⟨_, Option.some_or⟩
    | output block =>
        rw [kind] at listed
        simp [Kind.outputs] at listed
    | call target =>
        rw [kind] at listed
        cases target with
        | unresolved path reason => simp [Kind.outputs, CallSite.outputs] at listed
        | resolved callee =>
            obtain ⟨formal, _, rfl⟩ := List.mem_map.1 listed
            exact ⟨_, Option.some_or⟩
    | _ =>
        rw [kind] at listed
        obtain rfl := List.mem_singleton.1 listed
        exact ⟨_, Option.some_or⟩
  obtain ⟨type, typed⟩ := typed
  exact ⟨type, .output derived found member typed⟩

theorem node_of_feeds (coherent : wired.Coherent) {roots : List NodeId} {id : NodeId}
    (feeds : wired.Feeds roots id) : ∃ node, wired.node? id = some node ∧ node.id = id := by
  obtain ⟨node, found⟩ := exists_node_of_feeds coherent.present feeds
  exact ⟨node, found, (Graph.mem_of_node? found).2⟩

theorem producersFirst (coherent : wired.Coherent) {roots : List NodeId} {schedule : Schedule}
    (scheduled : wired.schedule roots = .ok schedule) :
    Typing.ProducersFirst wired schedule.order :=
  producersFirst_of_leads coherent.leads scheduled

theorem checkAll_eq_nil_iff (coherent : wired.Coherent) {roots : List NodeId} {schedule : Schedule}
    (scheduled : wired.schedule roots = .ok schedule) (stopAtFirst : Bool) :
    (Typing.checkAll wired stopAtFirst schedule.order []).2 = [] ↔
      ∀ id, wired.Feeds roots id → Typing.Valid wired id := by
  rw [Typing.checkAll_eq_nil_iff coherent.outputsDistinct stopAtFirst (nodup_order scheduled)
    (coherent.producersFirst scheduled)
    fun id member => coherent.node_of_feeds ((mem_order scheduled).1 member)]
  simp only [mem_order scheduled]

end Coherent

theorem unresolvedCall?_eq_none_iff {wired : WiredMaterial} {order : List NodeId} :
    wired.unresolvedCall? order = none ↔
      ∀ id ∈ order, ∀ node, wired.node? id = some node → node.kind.isUnresolvedCall = false := by
  unfold unresolvedCall?
  rw [List.findSome?_eq_none_iff]
  refine forall₂_congr fun id _ => ?_
  constructor
  · intro none node found
    rw [found] at none
    obtain ⟨_, _, kind, _, _⟩ := node
    cases kind with
    | call target =>
        cases target with
        | resolved callee => rfl
        | unresolved path reason => cases none
    | _ => rfl
  · intro resolved
    split
    · rename_i path reason _ _ found
      cases resolved _ found
    · rfl

structure Checked (wired : WiredMaterial) (order : List NodeId) (types : TypeTable) : Prop where
  coherent : wired.Coherent
  ordered : Typing.ProducersFirst wired order
  present : ∀ id ∈ order, ∃ node, wired.node? id = some node ∧ node.id = id
  resolved : ∀ id ∈ order, ∀ node, wired.node? id = some node →
    node.kind.isUnresolvedCall = false
  valid : ∀ id ∈ order, Typing.Valid wired id
  recorded : Typing.Recorded wired order types

theorem Checked.exists_recorded {wired : WiredMaterial} {order : List NodeId} {types : TypeTable}
    (checked : wired.Checked order types) {id : NodeId} (member : id ∈ order) {node : MaterialNode}
    (found : wired.node? id = some node) {output : OutputSlot} (slot : output ∈ node.outputs) :
    ∃ type, types.find? (id, output.id) = some type ∧
      Typing.Derivable wired (.output id output.id type) := by
  obtain ⟨type, derived⟩ :=
    checked.coherent.exists_output_type found (checked.valid id member) slot
  exact ⟨type, (checked.recorded id output.id type).2 ⟨member, derived⟩, derived⟩

theorem checked_of_checkAll {wired : WiredMaterial} (coherent : wired.Coherent)
    {roots : List NodeId} {schedule : Schedule} (scheduled : wired.schedule roots = .ok schedule)
    (resolved : wired.unresolvedCall? schedule.order = none) {stopAtFirst : Bool}
    {types : TypeTable}
    (clean : Typing.checkAll wired stopAtFirst schedule.order [] = (types, [])) :
    wired.Checked schedule.order types := by
  have ordered := coherent.producersFirst scheduled
  have present : ∀ id ∈ schedule.order, ∃ node, wired.node? id = some node ∧ node.id = id :=
    fun id member => coherent.node_of_feeds ((mem_order scheduled).1 member)
  have noFault : (Typing.checkAll wired stopAtFirst schedule.order []).2 = [] := by rw [clean]
  refine ⟨coherent, ordered, present, unresolvedCall?_eq_none_iff.1 resolved, ?_, ?_⟩
  · intro id member
    exact (coherent.checkAll_eq_nil_iff scheduled stopAtFirst).1 noFault id
      ((mem_order scheduled).1 member)
  · have recorded := Typing.recorded_checkAll coherent.outputsDistinct (nodup_order scheduled)
      ordered present noFault
    rwa [clean] at recorded

end Wired

namespace Callable

theorem Built.checked {callee : Callable} (built : callee.Built) :
    callee.body.Checked callee.schedule.order callee.types := by
  cases built with
  | ofGraph distinct nodes callees made =>
      obtain ⟨wired, schedule, types, formals, wire, scheduled, resolved, clean, _, rfl⟩ :=
        ofGraph_eq_ok_iff.1 made
      exact Wired.checked_of_checkAll (Wired.coherent_of_wire ⟨distinct, nodes, callees⟩ wire)
        scheduled resolved clean

theorem Built.output_scheduled {callee : Callable} (built : callee.Built) {formal : Formal}
    (member : formal ∈ callee.outputs) : formal.node ∈ callee.schedule.order := by
  cases built with
  | @ofGraph path graph policy callee distinct nodes callees made =>
      obtain ⟨wired, schedule, types, formals, wire, scheduled, _, _, collected, rfl⟩ :=
        ofGraph_eq_ok_iff.1 made
      obtain ⟨listed, node, name, accepts, found, kind, _⟩ :=
        (collected_of_foldlM collected).outputs formal member
      have wires := Graph.wires_of_wire wire
      obtain ⟨old, foundOld, same⟩ := wires.original found
      have kinds : old.kind = node.kind := congrArg (fun node => node.kind) same
      have isOutput : isOutputPlaceholder old = true := by
        unfold isOutputPlaceholder
        rw [kinds, kind]
      have known : wired.graph.contains formal.node = true :=
        Graph.contains_iff.2 ⟨node, found⟩
      exact (Wired.mem_order scheduled).2
        ⟨formal.node, mem_roots listed foundOld isOutput, known, Relation.ReflTransGen.refl⟩

theorem nodeDepth_le_nodesDepth {nodes : List MaterialNode} {node : MaterialNode}
    (member : node ∈ nodes) : nodeDepth node ≤ nodesDepth nodes := by
  induction nodes with
  | nil => simp at member
  | cons first rest ih =>
      unfold nodesDepth
      rcases List.mem_cons.1 member with same | later
      · exact same ▸ Nat.le_max_left _ _
      · exact (ih later).trans (Nat.le_max_right _ _)

/-- What a body calls is nested less deeply than the callable. -/
theorem depth_lt_depth {callee inner : Callable} {id : NodeId} {node : MaterialNode}
    (found : callee.body.node? id = some node) (calls : node.kind = .call (.resolved inner)) :
    inner.depth < callee.depth := by
  have member := (Graph.mem_of_node? found).1
  have bound := nodeDepth_le_nodesDepth member
  obtain ⟨_, _, kind, _, _⟩ := node
  obtain ⟨_, _, ⟨⟨_, nodes, _, _⟩, _, _⟩, _, _, _, _, _⟩ := callee
  cases calls
  simp only [nodeDepth, kindDepth, targetDepth] at bound
  simp only [Callable.depth, wiredDepth, graphDepth]
  exact Nat.lt_succ_of_le bound

end Callable

namespace Sample

def double : Material :=
  ((Graph.empty "Double").insert (.ofKind 0 (.functionInput (some "x") .scalar none)))
    |>.insert (.ofKind 1 (.math .add))
    |>.insert (.ofKind 2 (.functionOutput (some "y") .numeric))
    |>.connect ⟨0, 0, 1, 0⟩
    |>.connect ⟨0, 0, 1, 1⟩
    |>.connect ⟨1, 0, 2, 0⟩

def doubleWired : WiredMaterial :=
  match double.wire .strict with
  | .ok wired => wired
  | .error _ => .bare double

def doubleSchedule : Schedule := ⟨[[2], [1], [0]], [0, 1, 2]⟩

def doubleTypes : TypeTable := [((0, 0), .scalar), ((1, 0), .scalar), ((2, 0), .scalar)]

def callee (digest : Digest) : Callable :=
  .mk "Double" "double" doubleWired doubleSchedule doubleTypes [⟨0, "x", 0, .scalar, none⟩]
    [⟨0, "y", 2, .scalar, none⟩] digest

theorem double_built : double.Built := by
  refine Graph.Built.connect (Graph.Built.connect (Graph.Built.connect ?_ _) _) _
  refine Graph.Built.insert (Graph.Built.insert (Graph.Built.insert (Graph.Built.empty _)
    (.new _ _) ?_) (.new _ _) ?_) (.new _ _) ?_ <;> intro inner isCall <;> cases isCall

def calleeDigest : Digest := doubleWired.fingerprint (Callable.roots double)

theorem callee_made : Callable.ofGraph "double" double .strict = .ok (callee calleeDigest) := by
  have ports : Callable.placeholders double = [0, 2] := by cbv
  have roots : Callable.roots double = [2] := by cbv
  rw [Callable.ofGraph_eq_ok_iff]
  refine ⟨doubleWired, doubleSchedule, doubleTypes,
    ⟨[⟨0, "x", 0, .scalar, none⟩], [⟨0, "y", 2, .scalar, none⟩]⟩, rfl, ?_, rfl, rfl, ?_, rfl⟩
  · rw [roots]
    decide +kernel
  · rw [ports]
    rfl

theorem callee_built : (callee calleeDigest).Built :=
  .ofGraph double_built.distinct double_built.nodes double_built.callees callee_made

end Sample

end MaterialGraph
