import MaterialGraph.Proofs.Callable.Body
import MaterialGraph.Proofs.Digest.Records

/-!
What the digest of a graph is taken over. The records of a wired graph of nodes as authors make
them ascend strictly by identifier and keep the layouts of their kinds, so that their bytes say
everything they hold.
-/

set_option autoImplicit false

namespace MaterialGraph

def Graph.ShortTexts (graph : Material) : Prop :=
  ∀ node ∈ graph.nodes, ∀ text ∈ (node.kind.map CallSite.path).texts,
    text.utf8ByteSize < longText

theorem Graph.ShortTexts.wired {graph : Material} (short : graph.ShortTexts) {policy : LinkPolicy}
    {wired : WiredMaterial} (wire : graph.wire policy = .ok wired) :
    ∀ id node, wired.node? id = some node →
      ∀ text ∈ (node.kind.map CallSite.path).texts, text.utf8ByteSize < longText := by
  intro id node found
  obtain ⟨old, member, kinds⟩ := (Graph.wires_of_wire wire).exists_kind found
  exact kinds ▸ short old member

namespace Kind

theorem length_inputs_of_arity {kind : Kind (CallTarget Callable)} {count : Nat}
    (arity : (kind.map CallSite.path).arity? = some count) : kind.inputs.length = count := by
  cases kind with
  | math op =>
      cases arity
      rw [Kind.inputs, List.length_map, List.length_zipIdx]
  | output block =>
      cases arity
      rw [Kind.inputs, List.length_map, List.length_zipIdx]
  | call target => cases arity
  | _ =>
      cases arity
      rfl

theorem length_inputs_le {kind : Kind (CallTarget Callable)} (built : kind.CalleeBuilt) :
    kind.inputs.length ≤ UInt32.size := by
  have distinct := kind.inputs_nodup built
  have bound := length_le_of_nodup distinct
  rwa [List.length_map] at bound

end Kind

namespace Wired

theorem mem_records {wired : WiredMaterial} {roots : List NodeId} {record : NodeRecord} :
    record ∈ wired.records roots ↔
      ∃ id node, id ∈ wired.reachable roots ∧ wired.node? id = some node ∧
        record = nodeRecord roots node := by
  unfold records ascending
  simp only [List.mem_map, List.mem_filterMap, List.mem_mergeSort]
  constructor
  · rintro ⟨node, ⟨id, member, found⟩, rfl⟩
    exact ⟨id, node, member, found, rfl⟩
  · rintro ⟨id, node, member, found, rfl⟩
    exact ⟨node, ⟨id, member, found⟩, rfl⟩

theorem mem_ascending {ids : List NodeId} {id : NodeId} : id ∈ ascending ids ↔ id ∈ ids :=
  (List.mergeSort_perm ids _).mem_iff

theorem pairwise_ascending {ids : List NodeId} (distinct : ids.Nodup) :
    (ascending ids).Pairwise fun id other => id < other := by
  have sorted : (ascending ids).Pairwise fun id other => decide (id ≤ other) = true := by
    apply List.pairwise_mergeSort
    · intro first second third lower upper
      simp only [decide_eq_true_eq] at lower upper ⊢
      exact UInt32.le_trans lower upper
    · intro first second
      simp only [Bool.or_eq_true, decide_eq_true_eq]
      exact UInt32.le_total first second
  have apart : (ascending ids).Pairwise fun id other => id ≠ other :=
    (List.mergeSort_perm ids _).nodup_iff.2 distinct
  refine (sorted.and apart).imp ?_
  intro first second both
  exact UInt32.lt_of_le_of_ne (of_decide_eq_true both.1) both.2

theorem eq_of_ascending {left right : List NodeId}
    (leftSorted : left.Pairwise fun id other => id < other)
    (rightSorted : right.Pairwise fun id other => id < other)
    (same : ∀ id, id ∈ left ↔ id ∈ right) : left = right := by
  apply List.Perm.eq_of_pairwise _ leftSorted rightSorted
  · refine (List.perm_ext_iff_of_nodup ?_ ?_).2 same
    · exact leftSorted.imp fun below => UInt32.ne_of_lt below
    · exact rightSorted.imp fun below => UInt32.ne_of_lt below
  · intro first second _ _ below above
    exact absurd (UInt32.lt_trans below above) (UInt32.lt_irrefl first)

namespace Coherent

variable {wired : WiredMaterial}

/-- The identifiers of the records are those that feed the roots, in ascending order. -/
theorem ids_records (coherent : wired.Coherent) (roots : List NodeId) :
    (wired.records roots).map NodeRecord.id = ascending (wired.reachable roots) := by
  have found : ∀ id ∈ ascending (wired.reachable roots),
      ∃ node, wired.node? id = some node ∧ node.id = id := by
    intro id member
    exact coherent.node_of_feeds (mem_reachable.1 (mem_ascending.1 member))
  unfold records
  generalize ascending (wired.reachable roots) = ids at found ⊢
  induction ids with
  | nil => rfl
  | cons id rest induction =>
      rw [List.forall_mem_cons] at found
      obtain ⟨node, here, named⟩ := found.1
      rw [List.filterMap_cons_some here, List.map_cons, List.map_cons, induction found.2]
      exact congrArg (· :: rest) named

theorem proper_nodeRecord (coherent : wired.Coherent) {id : NodeId} {node : MaterialNode}
    (found : wired.node? id = some node) (roots : List NodeId)
    (short : ∀ text ∈ (node.kind.map CallSite.path).texts, text.utf8ByteSize < longText) :
    (nodeRecord roots node).Proper := by
  have slots : (node.inputs.map inputRecord).length = node.kind.inputs.length := by
    rw [List.length_map]
    exact (coherent.laid found).inputs.length_eq.symm
  refine ⟨?_, ?_, ?_, short⟩
  · intro notCall
    show calleeDigest node.kind = none
    cases kind : node.kind with
    | call target =>
        rw [nodeRecord, kind] at notCall
        exact absurd rfl (notCall (CallSite.path target))
    | _ => rfl
  · intro count arity
    exact slots.trans (Kind.length_inputs_of_arity arity)
  · show (node.inputs.map inputRecord).length < Nat.pow 256 8
    rw [slots]
    exact Nat.lt_of_le_of_lt (Kind.length_inputs_le (coherent.callees found)) (by decide)

theorem proper_records (coherent : wired.Coherent) (roots : List NodeId)
    (short : ∀ id node, wired.node? id = some node →
      ∀ text ∈ (node.kind.map CallSite.path).texts, text.utf8ByteSize < longText) :
    ∀ record ∈ wired.records roots, record.Proper := by
  intro record member
  obtain ⟨id, node, _, found, rfl⟩ := mem_records.1 member
  exact coherent.proper_nodeRecord found roots (short id node found)

theorem pairwise_records (coherent : wired.Coherent) (roots : List NodeId) :
    (wired.records roots).Pairwise fun record other => record.id < other.id := by
  have ids := pairwise_ascending (nodup_reachable wired roots)
  rw [← coherent.ids_records roots] at ids
  exact List.pairwise_map.1 ids

end Coherent

structure SameRecords (left right : WiredMaterial) (leftRoots rightRoots : List NodeId) : Prop where
  reachable : ∀ id, id ∈ left.reachable leftRoots ↔ id ∈ right.reachable rightRoots
  nodes : ∀ id ∈ left.reachable leftRoots, ∃ leftNode rightNode,
    left.node? id = some leftNode ∧ right.node? id = some rightNode ∧
    (id ∈ leftRoots ↔ id ∈ rightRoots) ∧
    leftNode.kind.map CallSite.path = rightNode.kind.map CallSite.path ∧
    calleeDigest leftNode.kind = calleeDigest rightNode.kind ∧
    leftNode.inputs.map inputRecord = rightNode.inputs.map inputRecord

theorem sameRecords_of_records {left right : WiredMaterial} (leftCoherent : left.Coherent)
    (rightCoherent : right.Coherent) {leftRoots rightRoots : List NodeId}
    (same : left.records leftRoots = right.records rightRoots) :
    SameRecords left right leftRoots rightRoots := by
  have ids : ascending (left.reachable leftRoots) = ascending (right.reachable rightRoots) := by
    rw [← leftCoherent.ids_records, ← rightCoherent.ids_records, same]
  have reachable : ∀ id, id ∈ left.reachable leftRoots ↔ id ∈ right.reachable rightRoots := by
    intro id
    rw [← mem_ascending, ids, mem_ascending]
  refine ⟨reachable, ?_⟩
  intro id member
  obtain ⟨leftNode, foundLeft, leftId⟩ := leftCoherent.node_of_feeds (mem_reachable.1 member)
  have listed : nodeRecord leftRoots leftNode ∈ right.records rightRoots :=
    same ▸ mem_records.2 ⟨id, leftNode, member, foundLeft, rfl⟩
  obtain ⟨other, rightNode, _, foundRight, equal⟩ := mem_records.1 listed
  obtain ⟨ids, flags, kinds, callees, inputs⟩ := NodeRecord.mk.injEq .. ▸ equal
  have here : other = id := by
    rw [← leftId, ids, (Graph.mem_of_node? foundRight).2]
  subst here
  refine ⟨leftNode, rightNode, foundLeft, foundRight, ?_, kinds, callees, inputs⟩
  rw [leftId, (Graph.mem_of_node? foundRight).2] at flags
  simpa using flags

theorem sameRecords_of_stream {left right : WiredMaterial} (leftCoherent : left.Coherent)
    (rightCoherent : right.Coherent)
    (leftShort : ∀ id node, left.node? id = some node →
      ∀ text ∈ (node.kind.map CallSite.path).texts, text.utf8ByteSize < longText)
    (rightShort : ∀ id node, right.node? id = some node →
      ∀ text ∈ (node.kind.map CallSite.path).texts, text.utf8ByteSize < longText)
    {leftRoots rightRoots : List NodeId} (same : left.stream leftRoots = right.stream rightRoots) :
    SameRecords left right leftRoots rightRoots := by
  apply sameRecords_of_records leftCoherent rightCoherent
  exact Encoding.flatMap_node_inj (leftCoherent.pairwise_records leftRoots)
    (rightCoherent.pairwise_records rightRoots)
    (leftCoherent.proper_records leftRoots leftShort)
    (rightCoherent.proper_records rightRoots rightShort) same

end Wired

theorem stream_injective {left right : Material} (leftBuilt : left.Built) (rightBuilt : right.Built)
    {leftPolicy rightPolicy : LinkPolicy} {leftWired rightWired : WiredMaterial}
    (leftWire : left.wire leftPolicy = .ok leftWired)
    (rightWire : right.wire rightPolicy = .ok rightWired) (leftShort : left.ShortTexts)
    (rightShort : right.ShortTexts) (leftRoots rightRoots : List NodeId)
    (same : leftWired.stream leftRoots = rightWired.stream rightRoots) :
    Wired.SameRecords leftWired rightWired leftRoots rightRoots := by
  exact Wired.sameRecords_of_stream (Wired.coherent_of_wire leftBuilt leftWire)
    (Wired.coherent_of_wire rightBuilt rightWire) (leftShort.wired leftWire)
    (rightShort.wired rightWire) same

namespace Sample

/-- The graph that adds its input to itself, stored in another order and with a node that feeds
nothing. -/
def redouble : Material :=
  ((Graph.empty "Twice").insert (.ofKind 2 (.functionOutput (some "y") .numeric)))
    |>.insert ((Node.ofKind 1 (.math .add)).withName "Sum")
    |>.insert (.ofKind 7 .textureSample)
    |>.insert (.ofKind 0 (.functionInput (some "x") .scalar none))
    |>.connect ⟨1, 0, 2, 0⟩
    |>.connect ⟨0, 0, 1, 1⟩
    |>.connect ⟨0, 0, 1, 0⟩

def redoubleWired : WiredMaterial :=
  match redouble.wire .lenient with
  | .ok wired => wired
  | .error _ => .bare redouble

theorem redouble_built : redouble.Built := by
  refine Graph.Built.connect (Graph.Built.connect (Graph.Built.connect ?_ _) _) _
  refine Graph.Built.insert (Graph.Built.insert (Graph.Built.insert (Graph.Built.insert
    (Graph.Built.empty _) (.new _ _) ?_) (.named _ (.new _ _)) ?_) (.new _ _) ?_) (.new _ _) ?_ <;>
    intro inner isCall <;> cases isCall

theorem stream_redouble : doubleWired.stream [2] = redoubleWired.stream [2, 2] := by
  have records : doubleWired.records [2] = redoubleWired.records [2, 2] := by cbv
  unfold Wired.stream
  rw [records]

end Sample

theorem stream_injective_double :
    Wired.SameRecords Sample.doubleWired Sample.redoubleWired [2] [2, 2] := by
  have leftWire : Sample.double.wire .strict = .ok Sample.doubleWired := rfl
  have rightWire : Sample.redouble.wire .lenient = .ok Sample.redoubleWired := rfl
  have leftShort : Sample.double.ShortTexts := by
    unfold Graph.ShortTexts
    decide
  have rightShort : Sample.redouble.ShortTexts := by
    unfold Graph.ShortTexts
    decide
  exact stream_injective Sample.double_built Sample.redouble_built leftWire rightWire leftShort
    rightShort [2] [2, 2] Sample.stream_redouble

end MaterialGraph
