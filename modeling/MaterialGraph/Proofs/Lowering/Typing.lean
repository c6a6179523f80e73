import MaterialGraph.Proofs.Expr.Typing
import MaterialGraph.Proofs.Lowering.Run

/-!
Lowered expressions are well typed, and those of a place have the type that the place has under
the typing rules of the graph. The types of arguments are those of the formal inputs they stand
for, so that the rules reach into every callee.
-/

set_option autoImplicit false

namespace MaterialGraph

namespace ExprList

def WellTypedAt (exprs : ExprList) (id : ExprId) : Prop :=
  ∃ kind type, exprs.Holds id kind type ∧ exprs.WellTyped kind type

theorem WellTypedAt.extend {old new : ExprList} (grown : old.Extends new) {id : ExprId}
    (typed : old.WellTypedAt id) : new.WellTypedAt id := by
  rcases typed with ⟨kind, type, held, rules⟩
  exact ⟨kind, type, held.extend grown, rules.extend grown⟩

end ExprList

namespace Lowering

open Typing

/-- A body whose table follows the typing rules and whose arguments have the types of the formal
inputs they are given for. -/
structure TypedBody (exprs : ExprList) (body : Body) : Prop where
  coherent : body.wired.Coherent
  types : ∀ {id slot type}, body.types.find? (id, slot) = some type →
    Derivable body.wired (.output id slot type)
  arguments : ∀ {id expr}, body.arguments.find? id = some expr →
    ∃ node name type default, body.wired.node? id = some node ∧
      node.kind = .functionInput name type default ∧ exprs.HasType expr type ∧
      exprs.WellTypedAt expr

/-- The type of a lowered node: that of its first output, or those of all outputs of a call. -/
def NodeTyped (exprs : ExprList) (body : Body) (id : NodeId) (node : MaterialNode)
    (expr : ExprId) : Prop :=
  match node.kind with
  | .call (.resolved callee) =>
      ∃ outputs, exprs.Holds expr (.call callee.name outputs) none ∧
        List.Forall₂ (fun (formal : Formal) output => exprs.HasType output formal.type)
          callee.outputs outputs
  | _ => ∃ type, Derivable body.wired (.output id 0 type) ∧ exprs.HasType expr type

def TypedAt (exprs : ExprList) (body : Body) (expr : ExprId) : Place → Prop
  | .node id => ∀ node, body.wired.node? id = some node → NodeTyped exprs body id node expr
  | .output id slot => ∃ type, Derivable body.wired (.output id slot type) ∧
      exprs.HasType expr type
  | .input id slot => ∃ node input type, body.wired.node? id = some node ∧
      node.input? slot = some input ∧ Derivable body.wired (.input input (some type)) ∧
      exprs.HasType expr type

variable {exprs : ExprList} {body : Body} {id : NodeId} {node : MaterialNode} {expr : ExprId}

theorem TypedBody.extend {old new : ExprList} (grown : old.Extends new)
    (typed : TypedBody old body) : TypedBody new body := by
  refine ⟨typed.coherent, typed.types, ?_⟩
  intro id expr given
  rcases typed.arguments given with ⟨node, name, type, default, found, kind, hasType, rules⟩
  exact ⟨node, name, type, default, found, kind, hasType.extend grown, rules.extend grown⟩

theorem derivable_declared (coherent : body.wired.Coherent)
    (found : body.wired.node? id = some node) (valid : Valid body.wired id) {output : OutputSlot}
    (listed : output ∈ node.kind.outputs) {type : ValueType} (declared : output.type = some type) :
    Derivable body.wired (.output id output.id type) := by
  rcases valid with ⟨inferred, derived⟩
  rw [← (coherent.laid found).outputs] at listed
  apply Derivable.output derived found listed
  rw [declared]
  rfl

theorem type_eq_of_single (coherent : body.wired.Coherent)
    (found : body.wired.node? id = some node) {layout : InputSlot}
    (listed : layout ∈ node.kind.inputs) {type : ValueType}
    (only : layout.allowed = .single type)
    (typed : TypedAt exprs body expr (.input id layout.id)) : exprs.HasType expr type := by
  rcases typed with ⟨_, input, arrived, foundToo, slotFound, derived, hasType⟩
  cases found.symm.trans foundToo
  rcases (coherent.laid found).exists_input listed with ⟨other, member, fits⟩
  have same := coherent.input?_of_mem found member
  rw [fits.id] at same
  cases slotFound.symm.trans same
  have allowed := derived.allowed
  rw [fits.allowed, only] at allowed
  have equal : arrived = type := by simpa [TypeSet.single] using allowed
  exact equal ▸ hasType

theorem nodeTyped_of_value (single : ∀ target, node.kind ≠ .call target) {type : ValueType}
    (derived : Derivable body.wired (.output id 0 type)) (hasType : exprs.HasType expr type) :
    NodeTyped exprs body id node expr := by
  unfold NodeTyped
  split
  · rename_i callee kind
    exact absurd kind (single _)
  · exact ⟨type, derived, hasType⟩

theorem typed_declared (typed : TypedBody exprs body) (found : body.wired.node? id = some node)
    (valid : Valid body.wired id) {shape : Kind (CallTarget Callable)} (kind : node.kind = shape)
    (single : ∀ target, shape ≠ .call target) {output : OutputSlot}
    (listed : output ∈ shape.outputs) (first : output.id = 0) {type : ValueType}
    (declared : output.type = some type) (hasType : exprs.HasType expr type) :
    TypedAt exprs body expr (.node id) := by
  subst kind
  intro other foundOther
  cases found.symm.trans foundOther
  have derived := derivable_declared typed.coherent found valid listed declared
  rw [first] at derived
  exact nodeTyped_of_value single derived hasType

theorem typed_sample (typed : TypedBody exprs body) (found : body.wired.node? id = some node)
    (valid : Valid body.wired id) (kind : node.kind = .textureSample)
    {image coordinate : ExprId} {level : Option ExprId}
    (atImage : TypedAt exprs body image (.input id Kind.textureSlot))
    (atCoordinate : TypedAt exprs body coordinate (.input id Kind.coordinateSlot))
    (atLevel : ∀ value, level = some value →
      TypedAt exprs body value (.input id Kind.levelSlot))
    (held : exprs.Holds expr (.sample image coordinate level) (some .vec4)) :
    exprs.WellTypedAt expr ∧ TypedAt exprs body expr (.node id) := by
  rcases Kind.mem_inputs_textureSample kind with ⟨imageSlot, coordinateSlot, levelSlot⟩
  have imageType : exprs.HasType image .texture :=
    type_eq_of_single typed.coherent found imageSlot rfl atImage
  have coordinateType : exprs.HasType coordinate .vec2 :=
    type_eq_of_single typed.coherent found coordinateSlot rfl atCoordinate
  have levelType : ∀ value, level = some value → exprs.HasType value .scalar := by
    intro value given
    exact type_eq_of_single typed.coherent found levelSlot rfl (atLevel value given)
  constructor
  · exact ⟨_, _, held, .sample imageType coordinateType levelType⟩
  · exact typed_declared typed found valid kind (by simp) List.mem_cons_self rfl rfl held.hasType

theorem TypedAt.of_member (coherent : body.wired.Coherent)
    (found : body.wired.node? id = some node) {input : InputSlot} (member : input ∈ node.inputs)
    (typed : TypedAt exprs body expr (.input id input.id)) :
    ∃ type, Derivable body.wired (.input input (some type)) ∧ exprs.HasType expr type := by
  rcases typed with ⟨_, _, type, foundToo, slotFound, derived, hasType⟩
  cases found.symm.trans foundToo
  cases slotFound.symm.trans (coherent.input?_of_mem found member)
  exact ⟨type, derived, hasType⟩

theorem typed_math (typed : TypedBody exprs body) (found : body.wired.node? id = some node)
    (valid : Valid body.wired id) {op : MathOp} (kind : node.kind = .math op)
    {operands : List ExprId}
    (atOperands : List.Forall₂ (fun (input : InputSlot) operand =>
      TypedAt exprs body operand (.input id input.id)) node.inputs operands)
    {type : ValueType} (recorded : body.types.find? (id, 0) = some type)
    (held : exprs.Holds expr (.math op operands) (some type)) :
    exprs.WellTypedAt expr ∧ TypedAt exprs body expr (.node id) := by
  have coherent := typed.coherent
  have distinct := coherent.outputsDistinct
  have derived := typed.types recorded
  rcases valid with ⟨inferred, derivedNode⟩
  rcases (derivable_node_iff found).1 derivedNode with ⟨arriving, fed, combined⟩
  rw [kind] at combined
  rcases inferredType_math.1 combined with ⟨result, resultType, rfl⟩
  -- The rules give every input one type, so the operands have the types that were combined.
  have operandTypes : List.Forall₂ (fun operand arrived => ∃ found, arrived = some found ∧
      exprs.HasType operand found) operands arriving := by
    have known := (List.forall₂_and_left _ _).2 ⟨fun _ member => member, atOperands⟩
    apply (forall₂_trans known.flip fed).imp
    intro operand arrived both
    rcases both with ⟨input, ⟨member, atOperand⟩, derivedInput⟩
    rcases atOperand.of_member coherent found member with ⟨other, derivedToo, hasType⟩
    exact ⟨other, derivedInput.agree distinct derivedToo rfl, hasType⟩
  have same : type = result := by
    have listed : (⟨0, "Result", none⟩ : OutputSlot) ∈ node.outputs := by
      rw [(coherent.laid found).outputs, kind]
      exact List.mem_singleton_self _
    have derivedResult := Derivable.output derivedNode found listed rfl
    exact derived.agree distinct derivedResult rfl rfl
  constructor
  · exact ⟨_, _, held, .math (forall₂_filterMap_id operandTypes) (same ▸ resultType)⟩
  · intro other foundOther
    cases found.symm.trans foundOther
    exact nodeTyped_of_value (by simp [kind]) derived held.hasType

theorem typed_functionOutput (typed : TypedBody exprs body)
    (found : body.wired.node? id = some node) (valid : Valid body.wired id)
    {name : Option String} {accepts : TypeSet} (kind : node.kind = .functionOutput name accepts)
    (atInput : TypedAt exprs body expr (.input id 0)) : TypedAt exprs body expr (.node id) := by
  have coherent := typed.coherent
  have laid := coherent.laid found
  rcases valid with ⟨inferred, derivedNode⟩
  rcases (derivable_node_iff found).1 derivedNode with ⟨arriving, fed, combined⟩
  have layouts := laid.inputs
  rw [kind] at layouts combined
  rcases List.forall₂_cons_left_iff.1 layouts with ⟨input, _, fits, _, inputs⟩
  rw [inputs] at fed
  rcases List.forall₂_cons_left_iff.1 fed with ⟨arrived, _, derivedInput, _, rfl⟩
  have slotId : input.id = 0 := fits.id
  rw [← slotId] at atInput
  rcases atInput.of_member coherent found (by rw [inputs]; exact List.mem_cons_self) with
    ⟨type, derivedToo, hasType⟩
  obtain rfl : arrived = some type := derivedInput.agree coherent.outputsDistinct derivedToo rfl
  cases combined
  intro other foundOther
  cases found.symm.trans foundOther
  have listed : (⟨0, "Value", none⟩ : OutputSlot) ∈ node.outputs := by
    rw [laid.outputs, kind]
    exact List.mem_singleton_self _
  exact nodeTyped_of_value (by simp [kind]) (Derivable.output derivedNode found listed rfl) hasType

theorem TypedBody.called (typed : TypedBody exprs body) (found : body.wired.node? id = some node)
    {callee : Callable} (kind : node.kind = .call (.resolved callee))
    {arguments : Table NodeId ExprId}
    (keys : arguments.map Prod.fst = callee.inputs.map Formal.node)
    (given : List.Forall₂ (fun (formal : Formal) (argument : NodeId × ExprId) =>
      exprs.WellTypedAt argument.2 ∧ TypedAt exprs body argument.2 (.input id formal.index))
      callee.inputs arguments) : TypedBody exprs (body.called id callee arguments) := by
  have built := typed.coherent.callees found callee kind
  refine ⟨built.checked.coherent, ?_, ?_⟩
  · intro inner slot type recorded
    exact ((built.checked.recorded inner slot type).1 recorded).2
  · intro inner argument taken
    have named := map_eq_map_iff_forall₂.1 keys
    have both := List.Forall₂.mp (fun _ _ key holds => And.intro key holds) named given.flip
    have members := ((List.forall₂_and_left _ _).2 ⟨fun _ member => member, both.flip⟩).flip
    rcases exists_related_of_mem members (Table.mem_of_find? taken) with
      ⟨formal, _, member, key, rules, atInput⟩
    have sameNode : inner = formal.node := key
    rcases built.collected with ⟨_, _, collected⟩
    rcases collected.inputs formal member with ⟨placeholder, name, foundInner, kindInner⟩
    refine ⟨placeholder, name, formal.type, formal.default, sameNode ▸ foundInner, kindInner, ?_,
      rules⟩
    have listed : formal.inputSlot ∈ node.kind.inputs := by
      rw [kind]
      exact List.mem_map_of_mem member
    rw [← formal.inputSlot_id] at atInput
    exact type_eq_of_single typed.coherent found listed formal.inputSlot_allowed atInput

theorem typed_call (found : body.wired.node? id = some node) {callee : Callable}
    (built : callee.Built) (kind : node.kind = .call (.resolved callee))
    {arguments : Table NodeId ExprId} {outputs : List ExprId}
    (atOutputs : List.Forall₂ (fun (formal : Formal) output =>
      TypedAt exprs (body.called id callee arguments) output (.node formal.node))
      callee.outputs outputs)
    (held : exprs.Holds expr (.call callee.name outputs) none) :
    exprs.WellTypedAt expr ∧ TypedAt exprs body expr (.node id) := by
  have outputTypes : List.Forall₂ (fun (formal : Formal) output =>
      exprs.HasType output formal.type) callee.outputs outputs := by
    apply ((List.forall₂_and_left _ _).2 ⟨fun _ member => member, atOutputs⟩).imp
    intro formal output both
    rcases both with ⟨member, atOutput⟩
    rcases built.collected with ⟨_, _, collected⟩
    rcases collected.outputs formal member with ⟨_, placeholder, name, accepts, foundInner,
      kindInner, recorded⟩
    have inner := atOutput placeholder foundInner
    unfold NodeTyped at inner
    rw [kindInner] at inner
    rcases inner with ⟨type, derived, hasType⟩
    have derivedToo := ((built.checked.recorded _ _ _).1 recorded).2
    have same : type = formal.type :=
      derived.agree built.checked.coherent.outputsDistinct derivedToo rfl rfl
    exact same ▸ hasType
  constructor
  · have listed : List.Forall₂ exprs.HasType outputs (callee.outputs.map Formal.type) :=
      List.forall₂_map_right_iff.2 outputTypes.flip
    exact ⟨_, _, held, .call listed⟩
  · intro other foundOther
    cases found.symm.trans foundOther
    unfold NodeTyped
    rw [kind]
    exact ⟨outputs, held, outputTypes⟩

/-- Only the first slot of a node carries all of its value. -/
theorem slot_eq_zero_of_whole (laid : node.Laid) {slot : SlotId} {output : OutputSlot}
    (slotFound : node.output? slot = some output) (plain : projection? node slot expr = none) :
    slot = 0 := by
  rcases Node.mem_of_output? slotFound with ⟨member, named⟩
  rw [laid.outputs] at member
  cases kind : node.kind with
  | textureSample =>
      rw [kind] at member
      simp only [Kind.outputs, List.mem_cons, List.not_mem_nil, or_false] at member
      rcases member with rfl | rfl | rfl | rfl | rfl | rfl <;> cases named <;>
        simp [projection?, kind] at plain ⊢
  | call target => simp [projection?, kind] at plain
  | output block =>
      rw [kind] at member
      simp [Kind.outputs] at member
  | _ =>
      rw [kind] at member
      cases List.mem_singleton.1 member
      exact named.symm

theorem typed_whole (coherent : body.wired.Coherent) (found : body.wired.node? id = some node)
    {slot : SlotId} {output : OutputSlot} (slotFound : node.output? slot = some output)
    (plain : projection? node slot expr = none) (atNode : TypedAt exprs body expr (.node id)) :
    TypedAt exprs body expr (.output id slot) := by
  obtain rfl := slot_eq_zero_of_whole (coherent.laid found) slotFound plain
  have inner := atNode node found
  unfold NodeTyped at inner
  split at inner
  · rename_i callee kind
    simp [projection?, kind] at plain
  · exact inner

theorem exists_components (laid : node.Laid) (kind : node.kind = .textureSample) {slot : SlotId}
    {output : OutputSlot} (slotFound : node.output? slot = some output) {base : ExprId}
    {part : ExprKind} (projected : projection? node slot base = some part) :
    ∃ components type, part = .swizzle base components ∧ output.type = some type ∧
      (∀ component ∈ components, component.lane?.isSome = true) ∧
      type.lanes? = some components.length := by
  rcases Node.mem_of_output? slotFound with ⟨member, named⟩
  rw [laid.outputs, kind] at member
  simp only [Kind.outputs, List.mem_cons, List.not_mem_nil, or_false] at member
  rcases member with rfl | rfl | rfl | rfl | rfl | rfl <;> cases named <;>
    simp [projection?, kind] at projected <;> subst projected <;>
    exact ⟨_, _, rfl, rfl, by decide, rfl⟩

theorem typed_part (typed : TypedBody exprs body) (found : body.wired.node? id = some node)
    (valid : Valid body.wired id) {slot : SlotId} {output : OutputSlot}
    (slotFound : node.output? slot = some output) {base : ExprId} {part : ExprKind}
    (projected : projection? node slot base = some part)
    (atNode : TypedAt exprs body base (.node id)) (held : exprs.Holds expr part output.type) :
    exprs.WellTypedAt expr ∧ TypedAt exprs body expr (.output id slot) := by
  have coherent := typed.coherent
  have laid := coherent.laid found
  rcases Node.mem_of_output? slotFound with ⟨member, named⟩
  rw [laid.outputs] at member
  have inner := atNode node found
  unfold NodeTyped at inner
  cases kind : node.kind with
  | textureSample =>
      rcases exists_components laid kind slotFound projected with
        ⟨components, type, rfl, declared, lanes, width⟩
      rw [kind] at inner
      rcases inner with ⟨baseType, derived, baseHas⟩
      have vec4 : Derivable body.wired (.output id 0 .vec4) := by
        have listed : (⟨0, "RGBA", some .vec4⟩ : OutputSlot) ∈ node.kind.outputs := by
          rw [kind]
          exact List.mem_cons_self
        exact derivable_declared coherent found valid listed rfl
      have same : baseType = .vec4 := derived.agree coherent.outputsDistinct vec4 rfl rfl
      rw [declared] at held
      constructor
      · exact ⟨_, _, held, .swizzle (same ▸ baseHas) lanes width⟩
      · rw [← named]
        exact ⟨type, derivable_declared coherent found valid member declared, held.hasType⟩
  | call target =>
      cases target with
      | unresolved path reason =>
          rw [kind] at member
          simp [Kind.outputs, CallSite.outputs] at member
      | resolved callee =>
          obtain rfl : part = .result base slot.toNat := by
            simpa [projection?, kind, eq_comm] using projected
          rw [kind] at inner
          rcases inner with ⟨outputs, calls, outputTypes⟩
          have built := coherent.callees found callee kind
          rcases built.exists_formal laid kind slotFound with ⟨formal, _, rfl, index⟩
          rcases exists_getElem?_of_forall₂ outputTypes index with ⟨result, atIndex, hasType⟩
          constructor
          · exact ⟨_, _, held, .result calls atIndex hasType⟩
          · rw [← named]
            exact ⟨formal.type, derivable_declared coherent found valid member rfl, held.hasType⟩
  | _ => simp [projection?, kind] at projected

theorem typed_bound (coherent : body.wired.Coherent) (found : body.wired.node? id = some node)
    (valid : Valid body.wired id) {slot : SlotId} {input : InputSlot}
    (slotFound : node.input? slot = some input) {binding : Binding}
    (bound : input.binding = some binding)
    (atOutput : TypedAt exprs body expr (.output binding.node binding.output)) :
    TypedAt exprs body expr (.input id slot) := by
  rcases atOutput with ⟨type, derived, hasType⟩
  have member := (Node.mem_of_input? slotFound).1
  refine ⟨node, input, type, found, slotFound, ?_, hasType⟩
  rcases valid.exists_input found member with ⟨arrived, fed⟩
  cases fed with
  | bound boundToo derivedToo allowed =>
      cases bound.symm.trans boundToo
      cases derived.agree coherent.outputsDistinct derivedToo rfl rfl
      exact .bound bound derived allowed
  | default unbound _ _ => cases bound.symm.trans unbound
  | unfed unbound _ _ => cases bound.symm.trans unbound

theorem typed_default (found : body.wired.node? id = some node) (valid : Valid body.wired id)
    {slot : SlotId} {input : InputSlot} (slotFound : node.input? slot = some input)
    (unbound : input.binding = none) {value : Literal} (given : input.default = some value)
    (held : exprs.Holds expr (.constant value none) (some value.type)) :
    exprs.WellTypedAt expr ∧ TypedAt exprs body expr (.input id slot) := by
  have member := (Node.mem_of_input? slotFound).1
  constructor
  · exact ⟨_, _, held, .literal⟩
  refine ⟨node, input, value.type, found, slotFound, ?_, held.hasType⟩
  rcases valid.exists_input found member with ⟨arrived, fed⟩
  cases fed with
  | bound bound _ _ => cases unbound.symm.trans bound
  | default _ givenToo allowed =>
      cases given.symm.trans givenToo
      exact .default unbound given allowed
  | unfed _ missing _ => cases given.symm.trans missing

/-- What an expression represents is typed by the rules of the graph, and the expression by those
of expressions. The induction goes through operands and through the bodies of callees. -/
theorem Represents.typed {place : Place} (represents : Represents exprs body place expr) :
    TypedBody exprs body → Valid body.wired place.id →
      exprs.WellTypedAt expr ∧ TypedAt exprs body expr place := by
  induction represents with
  | @constant _ _ _ value parameter _ found kind held =>
      intro typed valid
      constructor
      · cases parameter with
        | none => exact ⟨_, _, held, .literal⟩
        | some name => exact ⟨_, _, held, .uniform⟩
      · exact typed_declared typed found valid kind (by simp) List.mem_cons_self rfl rfl
          held.hasType
  | textureRef found kind held =>
      intro typed valid
      constructor
      · exact ⟨_, _, held, .texture⟩
      · exact typed_declared typed found valid kind (by simp) List.mem_cons_self rfl rfl
          held.hasType
  | sample found kind _ _ _ _ _ held image coordinate level =>
      intro typed valid
      exact typed_sample typed found valid kind (image typed valid).2 (coordinate typed valid).2
        (fun value given => (level value given typed valid).2) held
  | math found kind length _ recorded held operands =>
      intro typed valid
      have atOperands := List.forall₂_iff_zip.2
        ⟨length, fun {input operand} pair => (operands input operand pair typed valid).2⟩
      exact typed_math typed found valid kind atOperands recorded held
  | argument found kind given =>
      intro typed valid
      rcases typed.arguments given with ⟨_, _, _, _, foundToo, kindToo, hasType, rules⟩
      cases found.symm.trans foundToo
      cases kind.symm.trans kindToo
      constructor
      · exact rules
      · exact typed_declared typed found valid kind (by simp) List.mem_cons_self rfl rfl hasType
  | freeParameter found kind _ _ held =>
      intro typed valid
      constructor
      · exact ⟨_, _, held, .uniform⟩
      · exact typed_declared typed found valid kind (by simp) List.mem_cons_self rfl rfl
          held.hasType
  | @freeTexture _ _ _ _ type _ _ found kind _ zero held =>
      intro typed valid
      have texture : type = .texture := by cases type <;> simp [Literal.zero?] at zero ⊢
      constructor
      · exact ⟨_, _, held, .texture⟩
      · exact typed_declared typed found valid kind (by simp) List.mem_cons_self rfl rfl
          (texture ▸ held.hasType)
  | functionOutput found kind _ value =>
      intro typed valid
      have atInput := value typed valid
      exact ⟨atInput.1, typed_functionOutput typed found valid kind atInput.2⟩
  | call found kind keys _ length _ held arguments outputs =>
      intro typed valid
      have built := typed.coherent.callees found _ kind
      have given := forall₂_of_zip keys fun formal argument pair =>
        arguments formal argument pair typed valid
      have inner := typed.called found kind keys given
      have atOutputs := List.forall₂_iff_zip.2
        ⟨length, fun {formal output} pair =>
          (outputs formal output pair inner (built.checked.valid formal.node
            (built.output_scheduled (List.of_mem_zip pair).1))).2⟩
      exact typed_call found built kind atOutputs held
  | whole found slot _ plain value =>
      intro typed valid
      have atNode := value typed valid
      exact ⟨atNode.1, typed_whole typed.coherent found slot plain atNode.2⟩
  | part found slot _ projected held value =>
      intro typed valid
      exact typed_part typed found valid slot projected (value typed valid).2 held
  | bound found slot bound _ value =>
      intro typed valid
      have producer := valid.of_binding found (Node.mem_of_input? slot).1 bound
      have atOutput := value typed producer
      exact ⟨atOutput.1, typed_bound typed.coherent found valid slot bound atOutput.2⟩
  | default found slot unbound given held =>
      intro _ valid
      exact typed_default found valid slot unbound given held

/-- Every callee that is lowered inside of a typed body is typed. -/
theorem Inlined.typed {top : Body} (inlined : Inlined exprs top body)
    (typed : TypedBody exprs top) : TypedBody exprs body := by
  induction inlined with
  | top => exact typed
  | call _ found kind valid keys arguments ih =>
      have given := forall₂_of_zip keys fun formal argument pair =>
        (arguments formal argument pair).typed ih valid
      exact ih.called found kind keys given

theorem Placed.wellTypedAt {top : Body} (placed : Placed exprs top expr)
    (typed : TypedBody exprs top) : exprs.WellTypedAt expr := by
  rcases placed with ⟨inner, place, inlined, valid, represents⟩
  exact (represents.typed (inlined.typed typed) valid).1

theorem wellTyped_of_mem (placed : ∀ expr, expr < exprs.length → exprs.WellTypedAt expr)
    {entry : Expr} (member : entry ∈ exprs) : exprs.WellTyped entry.kind entry.type := by
  rcases List.getElem_of_mem member with ⟨position, inside, rfl⟩
  rcases placed position inside with ⟨kind, type, held, rules⟩
  have here : exprs.Holds position exprs[position].kind exprs[position].type :=
    ExprList.holds_iff.2 ⟨_, List.getElem?_eq_getElem inside, rfl, rfl⟩
  obtain ⟨rfl, rfl⟩ := held.unique here
  exact rules

end Lowering

end MaterialGraph
