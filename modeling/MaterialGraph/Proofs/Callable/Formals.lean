import MaterialGraph.Callable.Build
import MaterialGraph.Proofs.Graph.Layout
import Mathlib.Data.List.Sort

/-!
Callables made from graphs. Their formal ports are numbered from zero without a gap, each stands
for a placeholder node of the body, and an output has the type that was recorded for its node.
-/

set_option autoImplicit false

namespace MaterialGraph

namespace Callable

theorem ofGraph_eq_ok_iff {path : String} {graph : Material} {policy : LinkPolicy}
    {callee : Callable} :
    ofGraph path graph policy = .ok callee ↔
      ∃ wired schedule types formals,
        graph.wire policy = .ok wired ∧
        wired.schedule (roots graph) = .ok schedule ∧
        wired.unresolvedCall? schedule.order = none ∧
        Typing.checkAll wired false schedule.order [] = (types, []) ∧
        (placeholders graph).foldlM (addFormal wired types) ⟨[], []⟩ = .ok formals ∧
        callee = .mk graph.name path wired schedule types formals.inputs formals.outputs
          (wired.fingerprint (roots graph)) := by
  constructor
  · intro made
    unfold ofGraph at made
    split at made
    · cases made
    rename_i wired wire
    split at made
    · cases made
    rename_i schedule scheduled
    split at made
    · cases made
    rename_i resolved
    split at made
    · rename_i types checked
      split at made
      · cases made
      · rename_i formals collected
        cases made
        exact ⟨wired, schedule, types, formals, wire, scheduled, resolved, checked, collected, rfl⟩
    · cases made
  · rintro ⟨wired, schedule, types, formals, wire, scheduled, resolved, checked, collected, rfl⟩
    simp only [ofGraph, wire, scheduled, resolved, checked, collected]

structure Collected (wired : WiredMaterial) (types : TypeTable) (ids : List NodeId)
    (formals : Formals) : Prop where
  inputIndexes : formals.inputs.map Formal.index =
    (List.range formals.inputs.length).map UInt32.ofNat
  outputIndexes : formals.outputs.map Formal.index =
    (List.range formals.outputs.length).map UInt32.ofNat
  inputsBound : formals.inputs.length ≤ ids.length
  outputsBound : formals.outputs.length ≤ ids.length
  inputs : ∀ formal ∈ formals.inputs, ∃ node name, wired.node? formal.node = some node ∧
    node.kind = .functionInput name formal.type formal.default
  outputs : ∀ formal ∈ formals.outputs, formal.node ∈ ids ∧
    ∃ node name accepts, wired.node? formal.node = some node ∧
      node.kind = .functionOutput name accepts ∧ types.find? (formal.node, 0) = some formal.type

theorem indexes_append {formals : List Formal} {formal : Formal}
    (indexes : formals.map Formal.index = (List.range formals.length).map UInt32.ofNat)
    (next : formal.index = UInt32.ofNat formals.length) :
    (formals ++ [formal]).map Formal.index =
      (List.range (formals ++ [formal]).length).map UInt32.ofNat := by
  rw [List.length_append, List.length_singleton, List.range_succ, List.map_append, List.map_append,
    indexes]
  simp [next]

theorem Collected.addFormal {wired : WiredMaterial} {types : TypeTable} {ids : List NodeId}
    {formals next : Formals} {id : NodeId} (collected : Collected wired types ids formals)
    (added : addFormal wired types formals id = .ok next) :
    Collected wired types (ids ++ [id]) next := by
  obtain ⟨inputIndexes, outputIndexes, inputsBound, outputsBound, inputs, outputs⟩ := collected
  have earlier : ∀ formal ∈ formals.outputs, formal.node ∈ ids ++ [id] ∧
      ∃ node name accepts, wired.node? formal.node = some node ∧
        node.kind = .functionOutput name accepts ∧
        types.find? (formal.node, 0) = some formal.type := by
    intro formal member
    obtain ⟨known, facts⟩ := outputs formal member
    exact ⟨List.mem_append_left _ known, facts⟩
  have longer : ids.length ≤ (ids ++ [id]).length := by simp
  unfold Callable.addFormal at added
  split at added
  · cases added
    exact ⟨inputIndexes, outputIndexes, inputsBound.trans longer, outputsBound.trans longer, inputs,
      earlier⟩
  rename_i node found
  split at added
  · rename_i name type default kind
    cases added
    refine ⟨indexes_append inputIndexes rfl, outputIndexes, by simpa using inputsBound,
      outputsBound.trans longer, ?_, earlier⟩
    intro formal member
    rcases List.mem_append.1 member with old | new
    · exact inputs formal old
    · cases List.mem_singleton.1 new
      exact ⟨node, name, found, kind⟩
  · rename_i name accepts kind
    split at added
    · cases added
    · rename_i type recorded
      cases added
      refine ⟨inputIndexes, indexes_append outputIndexes rfl, inputsBound.trans longer,
        by simpa using outputsBound, inputs, ?_⟩
      intro formal member
      rcases List.mem_append.1 member with old | new
      · exact earlier formal old
      · cases List.mem_singleton.1 new
        exact ⟨List.mem_append_right _ List.mem_cons_self, node, name, accepts, found, kind,
          recorded⟩
  · cases added
    exact ⟨inputIndexes, outputIndexes, inputsBound.trans longer, outputsBound.trans longer, inputs,
      earlier⟩

theorem collected_of_foldlM {wired : WiredMaterial} {types : TypeTable} {ids : List NodeId}
    {formals : Formals}
    (collected : ids.foldlM (Callable.addFormal wired types) ⟨[], []⟩ = .ok formals) :
    Collected wired types ids formals := by
  have start : Collected wired types [] ⟨[], []⟩ :=
    ⟨rfl, rfl, Nat.le_refl _, Nat.le_refl _, by simp, by simp⟩
  exact foldlM_run (Collected wired types) (fun _ _ _ _ found added => found.addFormal added) []
    start collected

theorem length_placeholders_le (graph : Material) :
    (placeholders graph).length ≤ graph.ids.length := by
  unfold placeholders Wired.ascending Graph.ids
  rw [List.length_mergeSort, List.length_map, List.length_map]
  exact List.length_filter_le _ _

theorem mem_roots {graph : Material} {id : NodeId} {node : MaterialNode}
    (member : id ∈ placeholders graph) (found : graph.node? id = some node)
    (isOutput : isOutputPlaceholder node = true) : id ∈ roots graph := by
  unfold roots
  refine mem_foldl_of_mem ?_ ?_ member graph.roots
  · intro known other
    split
    · split
      · exact List.subset_append_left _ _
      · exact List.Subset.refl _
    · exact List.Subset.refl _
  · intro known
    simp only [found, isOutput, true_and]
    by_cases old : id ∈ known <;> simp [old]

/-- A callable made from a graph of nodes as authors make them, whose calls are of such callables
in turn. -/
inductive Built : Callable → Prop
  | ofGraph {path : String} {graph : Material} {policy : LinkPolicy} {callee : Callable}
      (distinct : graph.ids.Nodup) (nodes : ∀ node ∈ graph.nodes, node.Built)
      (callees : ∀ node ∈ graph.nodes, ∀ inner, node.kind = .call (.resolved inner) → Built inner)
      (made : ofGraph path graph policy = .ok callee) : Built callee

theorem Built.collected {callee : Callable} (built : callee.Built) :
    ∃ ids, ids.length ≤ UInt32.size ∧
      Collected callee.body callee.types ids ⟨callee.inputs, callee.outputs⟩ := by
  cases built with
  | ofGraph distinct nodes callees made =>
      obtain ⟨wired, schedule, types, formals, _, _, _, _, collected, rfl⟩ :=
        ofGraph_eq_ok_iff.1 made
      exact ⟨_, (length_placeholders_le _).trans (length_le_of_nodup distinct),
        collected_of_foldlM collected⟩

theorem Built.inputs_nodup {callee : Callable} (built : callee.Built) :
    (callee.inputs.map Formal.index).Nodup := by
  obtain ⟨ids, bound, collected⟩ := built.collected
  rw [collected.inputIndexes]
  exact nodup_map_ofNat_range (collected.inputsBound.trans bound)

theorem Built.outputs_nodup {callee : Callable} (built : callee.Built) :
    (callee.outputs.map Formal.index).Nodup := by
  obtain ⟨ids, bound, collected⟩ := built.collected
  rw [collected.outputIndexes]
  exact nodup_map_ofNat_range (collected.outputsBound.trans bound)

theorem Built.getElem?_outputs {callee : Callable} (built : callee.Built) {formal : Formal}
    (member : formal ∈ callee.outputs) : callee.outputs[formal.index.toNat]? = some formal := by
  obtain ⟨ids, bound, collected⟩ := built.collected
  obtain ⟨position, inside, found⟩ := List.getElem_of_mem member
  have sameIndex : formal.index = UInt32.ofNat position := by
    have listed := congrArg (fun indexes => indexes[position]?) collected.outputIndexes
    simpa [inside, found] using listed
  have small : position < UInt32.size :=
    Nat.lt_of_lt_of_le inside (collected.outputsBound.trans bound)
  rw [sameIndex, UInt32.toNat_ofNat_of_lt' small, List.getElem?_eq_getElem inside, found]

theorem Built.exists_formal {callee : Callable} (built : callee.Built) {node : MaterialNode}
    (laid : node.Laid) (kind : node.kind = .call (.resolved callee)) {slot : SlotId}
    {output : OutputSlot} (found : node.output? slot = some output) :
    ∃ formal ∈ callee.outputs, output = formal.outputSlot ∧
      callee.outputs[slot.toNat]? = some formal := by
  rcases Node.mem_of_output? found with ⟨member, named⟩
  rw [laid.outputs, kind] at member
  rcases List.mem_map.1 member with ⟨formal, formalMember, same⟩
  have index : formal.index = slot := by
    rw [← named, ← same]
    rfl
  exact ⟨formal, formalMember, same.symm, index ▸ built.getElem?_outputs formalMember⟩

end Callable

namespace Formal

theorem inputSlot_id (formal : Formal) : formal.inputSlot.id = formal.index := by
  unfold inputSlot
  split <;> rfl

theorem inputSlot_allowed (formal : Formal) : formal.inputSlot.allowed = .single formal.type := by
  unfold inputSlot
  split <;> rfl

theorem inputSlot_required_or_default (formal : Formal) :
    formal.inputSlot.required = true ∨ formal.inputSlot.default.isSome = true := by
  unfold inputSlot
  split
  · exact Or.inr rfl
  · exact Or.inl rfl

end Formal

namespace Kind

def CalleeBuilt (kind : Kind (CallTarget Callable)) : Prop :=
  ∀ callee, kind = .call (.resolved callee) → callee.Built

theorem inputs_nodup {kind : Kind (CallTarget Callable)} (built : kind.CalleeBuilt) :
    (kind.inputs.map InputSlot.id).Nodup := by
  cases kind with
  | constant value parameter => exact List.nodup_nil
  | textureRef name source => exact List.nodup_nil
  | textureSample => decide
  | math op => cases op <;> decide
  | output block => cases block <;> decide
  | functionInput name type default => exact List.nodup_nil
  | functionOutput name accepts => exact List.nodup_singleton _
  | call target =>
      cases target with
      | unresolved path reason => exact List.nodup_nil
      | resolved callee =>
          have indexes : (callee.inputs.map Formal.inputSlot).map InputSlot.id =
              callee.inputs.map Formal.index := by
            rw [List.map_map]
            exact List.map_congr_left fun formal _ => formal.inputSlot_id
          have distinct := (built callee rfl).inputs_nodup
          rw [← indexes] at distinct
          exact distinct

theorem outputs_nodup {kind : Kind (CallTarget Callable)} (built : kind.CalleeBuilt) :
    (kind.outputs.map OutputSlot.id).Nodup := by
  cases kind with
  | constant value parameter => exact List.nodup_singleton _
  | textureRef name source => exact List.nodup_singleton _
  | textureSample => decide
  | math op => exact List.nodup_singleton _
  | output block => exact List.nodup_nil
  | functionInput name type default => exact List.nodup_singleton _
  | functionOutput name accepts => exact List.nodup_singleton _
  | call target =>
      cases target with
      | unresolved path reason => exact List.nodup_nil
      | resolved callee =>
          have indexes : (callee.outputs.map Formal.outputSlot).map OutputSlot.id =
              callee.outputs.map Formal.index := by
            rw [List.map_map]
            rfl
          have distinct := (built callee rfl).outputs_nodup
          rw [← indexes] at distinct
          exact distinct

end Kind

end MaterialGraph
