import MaterialGraph.Proofs.Lowering.Typing
import MaterialGraph.Proofs.Wgsl.Emission

/-!
A compiled root is well typed at every depth of inlining: the output slots of scheduled nodes have
expressions of the types that were recorded, in the root's own graph as in every callee, and the
list of expressions follows the typing rules as a whole.
-/

set_option autoImplicit false

namespace MaterialGraph

namespace Lowering

/-- The bodies that lowering enters, with their schedules and the expressions made before: the
body of the root, and the body of each callee once the arguments of the call are made. -/
inductive Entered (wired : WiredMaterial) (types : TypeTable) (schedule : List NodeId) :
    Body → List NodeId → ExprList → Prop
  | top : Entered wired types schedule (.top wired types) schedule []
  | call {body : Body} {order before after : List NodeId} {exprs : ExprList} {id : NodeId}
      {node : MaterialNode} {callee : Callable} {builder next : Builder} {bound : Nat}
      {arguments : Table NodeId ExprId} :
      Entered wired types schedule body order exprs → order = before ++ id :: after →
      body.wired.node? id = some node → node.kind = .call (.resolved callee) →
      body.build before (.ofExprs exprs) = .ok () builder →
      argumentsOf body (demandWithin body inline bound) id callee builder = .ok arguments next →
      Entered wired types schedule (body.called id callee arguments) callee.schedule.order
        next.exprs

structure Ready (body : Body) (order : List NodeId) (exprs : ExprList) : Prop where
  checked : body.wired.Checked order body.types
  typed : TypedBody exprs body
  arguments : ∀ id expr, body.arguments.find? id = some expr → expr < exprs.length

theorem ready_top {wired : WiredMaterial} {types : TypeTable} {order : List NodeId}
    (checked : wired.Checked order types) : Ready (.top wired types) order [] := by
  refine ⟨checked, ⟨checked.coherent, ?_, ?_⟩, ?_⟩
  · intro id slot type recorded
    exact ((checked.recorded id slot type).1 recorded).2
  · intro id expr given
    cases given
  · intro id expr given
    cases given

theorem Ready.arguments_made {body : Body} {order before after : List NodeId} {exprs : ExprList}
    (ready : Ready body order exprs) {id : NodeId} (split : order = before ++ id :: after)
    {node : MaterialNode} (found : body.wired.node? id = some node) {callee : Callable}
    (kind : node.kind = .call (.resolved callee)) {builder : Builder}
    (ran : body.build before (.ofExprs exprs) = .ok () builder) (bound : Nat) :
    Delivers body exprs (argumentsOf body (demandWithin body inline bound) id callee) builder
      (fun arguments grown => exprs.Extends grown ∧ List.Forall₂
        (fun (formal : Formal) (argument : NodeId × ExprId) => argument.1 = formal.node ∧
          Represents grown body (.input id formal.index) argument.2)
        callee.inputs arguments) := by
  have coherent := ready.checked.coherent
  have member : id ∈ order := by
    rw [split]
    simp
  have valid := ready.checked.valid id member
  rcases build_run ready.checked split ready.arguments with ⟨_, ranToo, sound, known⟩
  cases ran.symm.trans ranToo
  have supplied := known.supplied coherent found
    (ready.checked.ordered before id after split node found)
  rcases delivers_arguments (recalls_demandWithin body inline bound) sound coherent found valid
    supplied kind with ⟨arguments, next, given, soundNext, grown, kept, represents⟩
  exact ⟨arguments, next, given, soundNext, grown, kept, soundNext.grown, represents⟩

theorem Ready.called {body : Body} {order before after : List NodeId} {exprs : ExprList}
    (ready : Ready body order exprs) {id : NodeId} (split : order = before ++ id :: after)
    {node : MaterialNode} (found : body.wired.node? id = some node) {callee : Callable}
    (kind : node.kind = .call (.resolved callee)) {builder next : Builder}
    (ran : body.build before (.ofExprs exprs) = .ok () builder) {bound : Nat}
    {arguments : Table NodeId ExprId}
    (given : argumentsOf body (demandWithin body inline bound) id callee builder =
      .ok arguments next) :
    Ready (body.called id callee arguments) callee.schedule.order next.exprs := by
  have built := ready.checked.coherent.callees found callee kind
  have member : id ∈ order := by
    rw [split]
    simp
  have valid := ready.checked.valid id member
  rcases ready.arguments_made split found kind ran bound with
    ⟨_, _, givenToo, soundNext, _, _, grown, represents⟩
  cases given.symm.trans givenToo
  have typed := ready.typed.extend grown
  refine ⟨built.checked, ?_, ?_⟩
  · have keys := map_eq_map_iff_forall₂.2 (represents.flip.imp fun _ _ held => held.1)
    exact typed.called found kind keys (represents.imp fun _ _ held => held.2.typed typed valid)
  · intro placeholder expr taken
    rcases exists_related_of_mem represents.flip (Table.mem_of_find? taken) with ⟨_, _, held⟩
    exact soundNext.lt_length held.2

theorem Entered.ready {wired : WiredMaterial} {types : TypeTable} {schedule : List NodeId}
    (checked : wired.Checked schedule types) {body : Body} {order : List NodeId}
    {exprs : ExprList} (entered : Entered wired types schedule body order exprs) :
    Ready body order exprs := by
  induction entered with
  | top => exact ready_top checked
  | call _ split found kind ran given ih => exact ih.called split found kind ran given

/-- The expression of an output slot of a scheduled node has the recorded type. -/
theorem Ready.output_typed {body : Body} {order : List NodeId} {exprs : ExprList}
    (ready : Ready body order exprs) :
    ∃ builder, body.build order (.ofExprs exprs) = .ok () builder ∧
      ∀ id ∈ order, ∀ node, body.wired.node? id = some node → ∀ slot ∈ node.outputs,
        ∃ expr next type, body.output id slot.id builder = .ok expr next ∧
          body.types.find? (id, slot.id) = some type ∧ next.exprs.HasType expr type := by
  have coherent := ready.checked.coherent
  rcases build_run ready.checked (List.append_nil order).symm ready.arguments with
    ⟨builder, ran, sound, known⟩
  refine ⟨builder, ran, ?_⟩
  intro id member node found slot listed
  have valid := ready.checked.valid id member
  have lowered : ∃ value, builder.nodes.find? id = some value := by
    rcases known id member node found with lowered | isBlock
    · exact lowered
    · rcases isBlock with ⟨block, kind⟩
      rw [(coherent.laid found).outputs, kind] at listed
      simp [Kind.outputs] at listed
  rcases lowered with ⟨value, lowered⟩
  rcases delivers_outputOf (recalls_demandWithin body inline body.wired.graph.nodes.length) sound
    found (coherent.output?_of_mem found listed) valid lowered with
    ⟨expr, next, given, _, grown, _, represents⟩
  have typed := ready.typed.extend (sound.grown.trans grown)
  rcases (represents.typed typed valid).2 with ⟨type, derived, hasType⟩
  rcases ready.checked.exists_recorded member found listed with ⟨other, recorded, derivedToo⟩
  have same : type = other := derived.agree coherent.outputsDistinct derivedToo rfl rfl
  exact ⟨expr, next, type, given, same ▸ recorded, hasType⟩

theorem Entered.exists_call {wired : WiredMaterial} {types : TypeTable} {schedule : List NodeId}
    (checked : wired.Checked schedule types) {body : Body} {order : List NodeId}
    {exprs : ExprList} (entered : Entered wired types schedule body order exprs) {id : NodeId}
    (member : id ∈ order) {node : MaterialNode} {callee : Callable}
    (found : body.wired.node? id = some node) (kind : node.kind = .call (.resolved callee)) :
    ∃ arguments inner, Entered wired types schedule (body.called id callee arguments)
      callee.schedule.order inner := by
  have ready := entered.ready checked
  rcases List.append_of_mem member with ⟨before, after, split⟩
  rcases build_run ready.checked split ready.arguments with ⟨builder, ran, _, _⟩
  rcases ready.arguments_made split found kind ran body.wired.graph.nodes.length with
    ⟨arguments, next, given, _⟩
  exact ⟨arguments, next.exprs, .call entered split found kind ran given⟩

theorem Reported.hasType {exprs : ExprList} {body : Body} {root : NodeId} {node : MaterialNode}
    {results : List Result} (reported : Reported exprs body root node results)
    (typed : TypedBody exprs body) (valid : Typing.Valid body.wired root) {result : Result}
    (member : result ∈ results) : ∃ type, exprs.HasType result.expr type := by
  unfold Reported at reported
  split at reported
  · rcases exists_related_of_mem reported.flip member with ⟨slot, _, _, represents⟩
    rcases (represents.typed typed valid).2 with ⟨_, _, type, _, _, _, hasType⟩
    exact ⟨type, hasType⟩
  · rcases exists_related_of_mem reported.flip member with ⟨slot, _, _, represents⟩
    rcases (represents.typed typed valid).2 with ⟨type, _, hasType⟩
    exact ⟨type, hasType⟩

end Lowering

namespace Wired

open Lowering

/-- A root that compiles has well typed expressions. In its graph, as in every callee that is
entered, and all are, the expression of each output slot of each scheduled node has the recorded
type. In the whole list each expression follows the typing rules, calls are used by their results
alone, and emission takes no way out. -/
theorem compileRoot_wellTyped {graph : Material} (built : graph.Built) {links : LinkPolicy}
    {wired : WiredMaterial} (wire : graph.wire links = .ok wired) {policy : ErrorPolicy}
    {root : NodeId} {compiled : CompiledRoot}
    (ok : wired.compileRoot policy root = .ok compiled) :
    (∀ body order exprs,
      Entered wired compiled.types compiled.schedule.order body order exprs →
      ∃ builder, body.build order (.ofExprs exprs) = .ok () builder ∧
        ∀ id ∈ order, ∀ node, body.wired.node? id = some node → ∀ slot ∈ node.outputs,
          ∃ expr next type, body.output id slot.id builder = .ok expr next ∧
            body.types.find? (id, slot.id) = some type ∧ next.exprs.HasType expr type) ∧
    (∀ body order exprs,
      Entered wired compiled.types compiled.schedule.order body order exprs →
      ∀ id ∈ order, ∀ node callee, body.wired.node? id = some node →
        node.kind = .call (.resolved callee) →
        ∃ arguments inner, Entered wired compiled.types compiled.schedule.order
          (body.called id callee arguments) callee.schedule.order inner) ∧
    (∀ expr ∈ compiled.exprs, compiled.exprs.WellTyped expr.kind expr.type) ∧
    (∀ expr ∈ compiled.exprs, ∀ operand ∈ expr.kind.operands, ∀ function outputs type,
      compiled.exprs.Holds operand (.call function outputs) type →
      type = none ∧ ∃ index, expr.kind = .result operand index) ∧
    (∀ result ∈ compiled.results, ∃ type, compiled.exprs.HasType result.expr type) ∧
    ∀ id type, compiled.exprs.HasType id type → ∀ fallback settings,
      Wgsl.emitOr fallback settings compiled.exprs id = Wgsl.emit settings compiled.exprs id := by
  have coherent := coherent_of_wire built wire
  rcases compiled_sound coherent ok with
    ⟨checked, member, ordered, placed, node, found, reported⟩
  have start : ExprList.Extends [] compiled.exprs := List.nil_prefix
  have typed := (ready_top checked).typed.extend start
  have wellTyped : ∀ expr ∈ compiled.exprs, compiled.exprs.WellTyped expr.kind expr.type :=
    fun _ listed =>
      wellTyped_of_mem (fun expr below => (placed expr below).wellTypedAt typed) listed
  refine ⟨?_, ?_, wellTyped, ?_, ?_, ?_⟩
  · intro body order exprs entered
    exact (entered.ready checked).output_typed
  · intro body order exprs entered id member node callee found kind
    exact entered.exists_call checked member found kind
  · intro expr listed operand used function outputs type calls
    rcases ExprList.holds_iff.1 calls with ⟨call, place, kind, rfl⟩
    have rules := wellTyped call (List.mem_of_getElem? place)
    have none : call.type = none := rules.type_eq_none_of_call kind
    rw [none] at calls
    exact ⟨none, (wellTyped expr listed).eq_result_of_call used calls⟩
  · intro result listed
    exact reported.hasType typed (checked.valid root member) listed
  · intro id type hasType fallback settings
    exact Wgsl.emitOr_eq_emit fallback settings ordered wellTyped hasType

/-- The expressions of a call are well typed, and so are the results of the root. -/
theorem compileRoot_wellTyped_caller :
    ∃ digest compiled, (Sample.callerWired digest).compileRoot .collectAll 12 = .ok compiled ∧
      (∀ expr ∈ compiled.exprs, compiled.exprs.WellTyped expr.kind expr.type) ∧
      ∀ result ∈ compiled.results, ∃ type, compiled.exprs.HasType result.expr type := by
  rcases Sample.caller_compiles with ⟨compiled, ok⟩
  rcases compileRoot_wellTyped (Sample.caller_built Sample.callee_built)
    (Sample.caller_wire Sample.calleeDigest) ok with ⟨_, _, wellTyped, _, typed, _⟩
  exact ⟨_, compiled, ok, wellTyped, typed⟩

end Wired

end MaterialGraph
