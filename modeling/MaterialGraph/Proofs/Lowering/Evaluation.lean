import MaterialGraph.Proofs.Lowering.Meaning
import MaterialGraph.Proofs.Lowering.Run
import Mathlib.Tactic.IntervalCases

/-!
Lowering preserves meaning. An expression that represents a place of a body has the value that the
graph has at that place, in every frame whose arguments are the values of the body's arguments.
-/

set_option autoImplicit false

namespace MaterialGraph

namespace Lowering

variable {Value : Type}

structure Matches (meaning : Interpretation Value) (exprs : ExprList) (body : Body)
    (frame : Frame Value) : Prop where
  wired : frame.wired = body.wired
  scope : frame.scope = body.scope
  arguments : List.Forall₂
    (fun (argument : NodeId × ExprId) (entry : NodeId × Value) =>
      argument.1 = entry.1 ∧ meaning.eval exprs argument.2 = some (.value entry.2))
    body.arguments frame.arguments

def Gives (meaning : Interpretation Value) (frame : Frame Value) (id : NodeId) :
    Meaning Value → Prop
  | .value value => meaning.node frame id = some value
  | .results values => ∃ node callee arguments, frame.wired.node? id = some node ∧
      node.kind = .call (.resolved callee) ∧
      meaning.arguments frame id callee = some arguments ∧
      List.Forall₂ (fun formal value =>
        meaning.node (frame.called id callee arguments) formal.node = some value)
        callee.outputs values

def Agrees (meaning : Interpretation Value) (exprs : ExprList) (frame : Frame Value)
    (expr : ExprId) : Place → Prop
  | .node id => ∃ found, meaning.eval exprs expr = some found ∧ Gives meaning frame id found
  | .output id slot => ∃ value, meaning.eval exprs expr = some (.value value) ∧
      meaning.output frame id slot = some value
  | .input id slot => ∃ value, meaning.eval exprs expr = some (.value value) ∧
      meaning.input frame id slot = some (some value)

theorem find?_of_forall₂ {Left Right : Type} (related : Left → Right → Prop)
    {lefts : Table NodeId Left} {rights : Table NodeId Right}
    (pairs : List.Forall₂ (fun left right => left.1 = right.1 ∧ related left.2 right.2)
      lefts rights)
    (id : NodeId) :
    (∀ left, lefts.find? id = some left →
        ∃ right, rights.find? id = some right ∧ related left right) ∧
      (lefts.find? id = none → rights.find? id = none) := by
  induction pairs with
  | nil => simp
  | @cons left right lefts rights first _ ih =>
      obtain ⟨leftKey, left⟩ := left
      obtain ⟨rightKey, right⟩ := right
      obtain ⟨rfl, holds⟩ := first
      unfold Table.find?
      by_cases same : leftKey = id
      · simp [same, holds]
      · simpa [same] using ih

variable {meaning : Interpretation Value} {exprs : ExprList}

theorem Matches.find? {body : Body} {frame : Frame Value} (same : Matches meaning exprs body frame)
    (id : NodeId) :
    (∀ argument, body.arguments.find? id = some argument →
      ∃ value, frame.arguments.find? id = some value ∧
        meaning.eval exprs argument = some (.value value)) ∧
      (body.arguments.find? id = none → frame.arguments.find? id = none) :=
  find?_of_forall₂ (fun argument value => meaning.eval exprs argument = some (.value value))
    same.arguments id

section Places

variable {body : Body} {frame : Frame Value} {id : NodeId} {node : MaterialNode} {expr : ExprId}

theorem Agrees.operand {slot : SlotId} {operand : ExprId}
    (agrees : Agrees meaning exprs frame operand (.input id slot)) :
    ∃ value, (meaning.eval exprs operand).bind Meaning.value? = some value ∧
      meaning.operand frame id slot = some value := by
  obtain ⟨value, evaluated, reached⟩ := agrees
  refine ⟨value, by rw [evaluated]; rfl, ?_⟩
  rw [Interpretation.operand, reached]
  rfl

theorem agrees_of_node {value : Value} (evaluated : meaning.eval exprs expr = some (.value value))
    (given : meaning.node frame id = some value) : Agrees meaning exprs frame expr (.node id) :=
  ⟨.value value, evaluated, given⟩

theorem agrees_constant (ordered : exprs.OrderedFrom 0) (same : Matches meaning exprs body frame)
    (found : body.wired.node? id = some node) {value : Literal} {parameter : Option String}
    (kind : node.kind = .constant value parameter)
    (held : exprs.Holds expr (.constant value (parameter.map body.qualified)) (some value.type)) :
    Agrees meaning exprs frame expr (.node id) := by
  have evaluated := meaning.eval_of_holds ordered held
  rw [← same.wired] at found
  cases parameter with
  | none =>
      apply agrees_of_node evaluated
      rw [Interpretation.node]
      simp only [found, kind]
  | some name =>
      apply agrees_of_node evaluated
      rw [Interpretation.node]
      simp only [found, kind, same.scope]
      rfl

theorem agrees_textureRef (ordered : exprs.OrderedFrom 0)
    (same : Matches meaning exprs body frame) (found : body.wired.node? id = some node)
    {name : String} {source : Option String} (kind : node.kind = .textureRef name source)
    (held : exprs.Holds expr (.texture (body.qualified name)) (some .texture)) :
    Agrees meaning exprs frame expr (.node id) := by
  rw [← same.wired] at found
  apply agrees_of_node (meaning.eval_of_holds ordered held)
  rw [Interpretation.node]
  simp only [found, kind, same.scope]
  rfl

theorem agrees_sample (ordered : exprs.OrderedFrom 0) (same : Matches meaning exprs body frame)
    (found : body.wired.node? id = some node) (kind : node.kind = .textureSample)
    {image coordinate : ExprId} {level : Option ExprId} {lod : InputSlot}
    (atImage : Agrees meaning exprs frame image (.input id Kind.textureSlot))
    (atCoordinate : Agrees meaning exprs frame coordinate (.input id Kind.coordinateSlot))
    (lodFound : node.input? Kind.levelSlot = some lod)
    (atLevel : ∀ value, level = some value →
      Agrees meaning exprs frame value (.input id Kind.levelSlot))
    (unfed : level = none → lod.binding = none ∧ lod.default = none)
    (held : exprs.Holds expr (.sample image coordinate level) (some .vec4)) :
    Agrees meaning exprs frame expr (.node id) := by
  obtain ⟨imageValue, imageEvaluated, imageReached⟩ := atImage.operand
  obtain ⟨coordinateValue, coordinateEvaluated, coordinateReached⟩ := atCoordinate.operand
  rw [← same.wired] at found
  have levels : ∃ values, (level.mapM fun id => (meaning.eval exprs id).bind Meaning.value?) =
      some values ∧ meaning.input frame id Kind.levelSlot = some values := by
    cases level with
    | none =>
        obtain ⟨unbound, missing⟩ := unfed rfl
        refine ⟨none, rfl, ?_⟩
        rw [Interpretation.input]
        simp only [found, Option.bind_some, lodFound, unbound, missing]
    | some value =>
        obtain ⟨levelValue, evaluated, reached⟩ := atLevel value rfl
        refine ⟨some levelValue, ?_, reached⟩
        simp [evaluated, Meaning.value?]
  obtain ⟨levelValue, levelEvaluated, levelReached⟩ := levels
  have evaluated : meaning.eval exprs expr =
      some (.value (meaning.sample imageValue coordinateValue levelValue)) := by
    rw [meaning.eval_of_holds ordered held]
    simp only [Interpretation.apply, imageEvaluated, coordinateEvaluated, levelEvaluated,
      Option.bind_eq_bind, Option.bind_some]
  apply agrees_of_node evaluated
  rw [Interpretation.node]
  simp only [found, kind, imageReached, coordinateReached, levelReached, Option.bind_eq_bind,
    Option.bind_some]

theorem agrees_math (ordered : exprs.OrderedFrom 0) (same : Matches meaning exprs body frame)
    (found : body.wired.node? id = some node) {op : MathOp} (kind : node.kind = .math op)
    {operands : List ExprId} {type : ValueType}
    (atOperands : List.Forall₂ (fun (input : InputSlot) operand =>
      Agrees meaning exprs frame operand (.input id input.id)) node.inputs operands)
    (held : exprs.Holds expr (.math op operands) (some type)) :
    Agrees meaning exprs frame expr (.node id) := by
  obtain ⟨values, reached, each⟩ := exists_mapM_eq_some (atOperands.imp fun _ _ agrees =>
    agrees.operand.imp fun _ both => both.symm)
  have operandValues := mapM_eq_some_of_forall₂ each
  have evaluated : meaning.eval exprs expr = some (.value (meaning.math op values)) := by
    rw [meaning.eval_of_holds ordered held]
    simp only [Interpretation.apply, operandValues, Option.bind_eq_bind, Option.bind_some]
  rw [← same.wired] at found
  apply agrees_of_node evaluated
  rw [Interpretation.node]
  simp only [found, kind, reached, Option.bind_eq_bind, Option.bind_some]

theorem agrees_argument (same : Matches meaning exprs body frame)
    (found : body.wired.node? id = some node) {name : Option String} {type : ValueType}
    {default : Option Literal} (kind : node.kind = .functionInput name type default)
    (given : body.arguments.find? id = some expr) : Agrees meaning exprs frame expr (.node id) := by
  obtain ⟨value, givenToo, evaluated⟩ := (same.find? id).1 expr given
  rw [← same.wired] at found
  apply agrees_of_node evaluated
  rw [Interpretation.node]
  simp only [found, kind, givenToo]

theorem node_free (same : Matches meaning exprs body frame)
    (found : body.wired.node? id = some node) {name : Option String} {type : ValueType}
    {default : Option Literal} (kind : node.kind = .functionInput name type default)
    (free : body.arguments.find? id = none) :
    meaning.node frame id = some (meaning.free frame id name type default) := by
  have freeToo := (same.find? id).2 free
  rw [← same.wired] at found
  rw [Interpretation.node]
  simp only [found, kind, freeToo]

theorem agrees_functionOutput (same : Matches meaning exprs body frame)
    (found : body.wired.node? id = some node) {name : Option String} {accepts : TypeSet}
    (kind : node.kind = .functionOutput name accepts)
    (atInput : Agrees meaning exprs frame expr (.input id 0)) :
    Agrees meaning exprs frame expr (.node id) := by
  obtain ⟨value, evaluated, reached⟩ := atInput
  rw [← same.wired] at found
  apply agrees_of_node evaluated
  rw [Interpretation.node]
  simp only [found, kind]
  rw [Interpretation.operand, reached]
  rfl

theorem agrees_call (ordered : exprs.OrderedFrom 0) (same : Matches meaning exprs body frame)
    (found : body.wired.node? id = some node) {callee : Callable} (built : callee.Built)
    (kind : node.kind = .call (.resolved callee)) {arguments : Table NodeId ExprId}
    (keys : arguments.map Prod.fst = callee.inputs.map Formal.node)
    (atArguments : List.Forall₂ (fun (formal : Formal) (argument : NodeId × ExprId) =>
      Agrees meaning exprs frame argument.2 (.input id formal.index)) callee.inputs arguments)
    {outputs : List ExprId}
    (atOutputs : ∀ {inner : Frame Value},
      Matches meaning exprs (body.called id callee arguments) inner →
      List.Forall₂ (fun (formal : Formal) output =>
        Agrees meaning exprs inner output (.node formal.node)) callee.outputs outputs)
    (held : exprs.Holds expr (.call callee.name outputs) none) :
    Agrees meaning exprs frame expr (.node id) := by
  have given : List.Forall₂ (fun (formal : Formal) (argument : NodeId × ExprId) =>
      ∃ entry : NodeId × Value, (do
          let value ← meaning.operand frame id formal.index
          some (formal.node, value)) = some entry ∧
        argument.1 = entry.1 ∧ meaning.eval exprs argument.2 = some (.value entry.2))
      callee.inputs arguments := by
    refine List.Forall₂.mp ?_ (map_eq_map_iff_forall₂.1 keys.symm) atArguments
    rintro formal argument key ⟨value, evaluated, reached⟩
    refine ⟨(formal.node, value), ?_, key.symm, evaluated⟩
    rw [Interpretation.operand, reached]
    rfl
  obtain ⟨table, reached, pairs⟩ := exists_mapM_eq_some given
  rw [← Interpretation.arguments] at reached
  have inner : Matches meaning exprs (body.called id callee arguments)
      (frame.called id callee table) := by
    refine ⟨rfl, ?_, pairs⟩
    simp only [Frame.called, Body.called, same.scope]
  -- A formal output is no call, so that it has one value.
  have single : List.Forall₂ (fun (formal : Formal) output =>
      ∃ value, (meaning.eval exprs output).bind Meaning.value? = some value ∧
        meaning.node (frame.called id callee table) formal.node = some value)
      callee.outputs outputs := by
    apply ((List.forall₂_and_left _ _).2 ⟨fun _ member => member, atOutputs inner⟩).imp
    rintro formal output ⟨member, result, evaluated, gives⟩
    cases result with
    | value value => exact ⟨value, by rw [evaluated]; rfl, gives⟩
    | results values =>
        obtain ⟨_, _, collected⟩ := built.collected
        obtain ⟨_, node, name, accepts, found, isOutput, _⟩ := collected.outputs formal member
        obtain ⟨_, _, _, foundToo, isCall, _⟩ := gives
        cases found.symm.trans foundToo
        cases isOutput.symm.trans isCall
  obtain ⟨values, evaluated, given⟩ := exists_mapM_eq_some single.flip
  rw [← same.wired] at found
  refine ⟨.results values, ?_, node, callee, table, found, kind, reached, given⟩
  rw [meaning.eval_of_holds ordered held]
  simp only [Interpretation.apply, evaluated, Option.bind_eq_bind, Option.bind_some]

theorem slot_le_five {slot : SlotId} {output : OutputSlot} (laid : node.Laid)
    (kind : node.kind = .textureSample) (slotFound : node.output? slot = some output) :
    slot.toNat ≤ 5 := by
  rcases Node.mem_of_output? slotFound with ⟨member, named⟩
  rw [laid.outputs, kind] at member
  simp only [Kind.outputs, List.mem_cons, List.not_mem_nil, or_false] at member
  rcases member with rfl | rfl | rfl | rfl | rfl | rfl <;> cases named <;> decide

theorem channel_eq_of_projection? (meaning : Interpretation Value) {slot : SlotId}
    (small : slot.toNat ≤ 5) (kind : node.kind = .textureSample) {value : ExprId} (texel : Value) :
    (projection? node slot value = none → meaning.channel slot texel = some texel) ∧
      ∀ part, projection? node slot value = some part →
        ∃ components, part = .swizzle value components ∧
          meaning.channel slot texel = some (meaning.select components texel) := by
  unfold projection? Interpretation.channel
  simp only [kind]
  generalize slot.toNat = position at small
  interval_cases position <;> simp

theorem agrees_whole (same : Matches meaning exprs body frame) (coherent : body.wired.Coherent)
    (found : body.wired.node? id = some node) {slot : SlotId} {output : OutputSlot}
    (slotFound : node.output? slot = some output) (plain : projection? node slot expr = none)
    (atNode : Agrees meaning exprs frame expr (.node id)) :
    Agrees meaning exprs frame expr (.output id slot) := by
  have laid := coherent.laid found
  rw [← same.wired] at found
  obtain ⟨result, evaluated, gives⟩ := atNode
  cases result with
  | results values =>
      obtain ⟨_, _, _, foundToo, isCall, _⟩ := gives
      cases found.symm.trans foundToo
      simp [projection?, isCall] at plain
  | value value =>
      have gives : meaning.node frame id = some value := gives
      refine ⟨value, evaluated, ?_⟩
      rw [Interpretation.output]
      simp only [found]
      cases kind : node.kind with
      | textureSample =>
          have small := slot_le_five laid kind slotFound
          have whole := (channel_eq_of_projection? meaning small kind value).1 plain
          simp only [gives, Option.bind_eq_bind, Option.bind_some, whole]
      | call target => simp [projection?, kind] at plain
      | _ => exact gives

theorem agrees_part (ordered : exprs.OrderedFrom 0) (same : Matches meaning exprs body frame)
    (coherent : body.wired.Coherent) (found : body.wired.node? id = some node) {slot : SlotId}
    {output : OutputSlot} (slotFound : node.output? slot = some output) {base : ExprId}
    {part : ExprKind} (projected : projection? node slot base = some part)
    (atNode : Agrees meaning exprs frame base (.node id))
    (held : exprs.Holds expr part output.type) :
    Agrees meaning exprs frame expr (.output id slot) := by
  have laid := coherent.laid found
  have callees := coherent.callees found
  have evaluatedPart := meaning.eval_of_holds ordered held
  rw [← same.wired] at found
  obtain ⟨result, evaluated, gives⟩ := atNode
  cases result with
  | value value =>
      have gives : meaning.node frame id = some value := gives
      cases kind : node.kind with
      | textureSample =>
          have small := slot_le_five laid kind slotFound
          obtain ⟨components, rfl, carried⟩ :=
            (channel_eq_of_projection? meaning small kind value).2 part projected
          refine ⟨meaning.select components value, ?_, ?_⟩
          · rw [evaluatedPart]
            simp only [Interpretation.apply, evaluated, Option.bind_some, Meaning.value?,
              Option.bind_eq_bind]
          · rw [Interpretation.output]
            simp only [found, kind, gives, Option.bind_eq_bind, Option.bind_some, carried]
      | call target =>
          rw [Interpretation.node] at gives
          simp [found, kind] at gives
      | _ => simp [projection?, kind] at projected
  | results values =>
      obtain ⟨_, callee, arguments, foundToo, kind, reached, outputs⟩ := gives
      cases found.symm.trans foundToo
      obtain rfl : part = .result base slot.toNat := by
        simpa [projection?, kind, eq_comm] using projected
      -- The slot of a formal output is its position among the results.
      obtain ⟨formal, _, _, index⟩ := (callees callee kind).exists_formal laid kind slotFound
      obtain ⟨value, atIndex, given⟩ := exists_getElem?_of_forall₂ outputs index
      refine ⟨value, ?_, ?_⟩
      · rw [evaluatedPart]
        simp only [Interpretation.apply, evaluated, Option.bind_some, Meaning.results?,
          Option.bind_eq_bind, atIndex]
      · rw [Interpretation.output]
        simp only [found, kind, reached, Option.bind_eq_bind, Option.bind_some, index, given]

theorem agrees_bound (same : Matches meaning exprs body frame)
    (found : body.wired.node? id = some node) {slot : SlotId} {input : InputSlot}
    (slotFound : node.input? slot = some input) {binding : Binding}
    (bound : input.binding = some binding)
    (atOutput : Agrees meaning exprs frame expr (.output binding.node binding.output)) :
    Agrees meaning exprs frame expr (.input id slot) := by
  obtain ⟨value, evaluated, given⟩ := atOutput
  rw [← same.wired] at found
  refine ⟨value, evaluated, ?_⟩
  rw [Interpretation.input]
  simp only [found, Option.bind_some, slotFound, bound, given, Option.bind_eq_bind]

theorem agrees_default (ordered : exprs.OrderedFrom 0) (same : Matches meaning exprs body frame)
    (found : body.wired.node? id = some node) {slot : SlotId} {input : InputSlot}
    (slotFound : node.input? slot = some input) (unbound : input.binding = none) {value : Literal}
    (given : input.default = some value)
    (held : exprs.Holds expr (.constant value none) (some value.type)) :
    Agrees meaning exprs frame expr (.input id slot) := by
  rw [← same.wired] at found
  refine ⟨meaning.literal value, meaning.eval_of_holds ordered held, ?_⟩
  rw [Interpretation.input]
  simp only [found, Option.bind_some, slotFound, unbound, given]

end Places

/-- By induction on what an expression is made from, through calls as through operands. -/
theorem Represents.agrees (ordered : exprs.OrderedFrom 0) {body : Body} {place : Place}
    {expr : ExprId} (represents : Represents exprs body place expr) :
    ∀ {frame : Frame Value}, body.wired.Coherent → Matches meaning exprs body frame →
      Agrees meaning exprs frame expr place := by
  induction represents with
  | constant found kind held =>
      intro frame _ same
      exact agrees_constant ordered same found kind held
  | textureRef found kind held =>
      intro frame _ same
      exact agrees_textureRef ordered same found kind held
  | sample found kind _ _ lod _ unfed held image coordinate level =>
      intro frame coherent same
      exact agrees_sample ordered same found kind (image coherent same) (coordinate coherent same)
        lod (fun value given => level value given coherent same) unfed held
  | math found kind length _ _ held operands =>
      intro frame coherent same
      have atOperands := List.forall₂_iff_zip.2
        ⟨length, fun {input operand} pair => operands input operand pair coherent same⟩
      exact agrees_math ordered same found kind atOperands held
  | argument found kind given =>
      intro frame _ same
      exact agrees_argument same found kind given
  | freeParameter found kind free zero held =>
      intro frame _ same
      apply agrees_of_node (meaning.eval_of_holds ordered held)
      rw [node_free same found kind free]
      simp only [Interpretation.free, zero, same.scope]
      rfl
  | freeTexture found kind free zero held =>
      intro frame _ same
      apply agrees_of_node (meaning.eval_of_holds ordered held)
      rw [node_free same found kind free]
      simp only [Interpretation.free, zero, same.scope]
      rfl
  | functionOutput found kind _ value =>
      intro frame coherent same
      exact agrees_functionOutput same found kind (value coherent same)
  | call found kind keys _ length _ held arguments outputs =>
      intro frame coherent same
      have built := coherent.callees found _ kind
      have atArguments := forall₂_of_zip keys fun formal argument pair =>
        arguments formal argument pair coherent same
      exact agrees_call ordered same found built kind keys atArguments
        (fun inner => List.forall₂_iff_zip.2
          ⟨length, fun {formal output} pair =>
            outputs formal output pair built.checked.coherent inner⟩)
        held
  | whole found slot _ plain value =>
      intro frame coherent same
      exact agrees_whole same coherent found slot plain (value coherent same)
  | part found slot _ projected held value =>
      intro frame coherent same
      exact agrees_part ordered same coherent found slot projected (value coherent same) held
  | bound found slot bound _ value =>
      intro frame coherent same
      exact agrees_bound same found slot bound (value coherent same)
  | default found slot unbound given held =>
      intro frame _ same
      exact agrees_default ordered same found slot unbound given held

end Lowering

/-- Numbers for values: uniforms are one, and operations add. -/
def Sample.sums : Interpretation Nat where
  literal := fun _ => 0
  uniform := fun _ _ _ => 1
  texture := fun _ => 0
  sample := fun _ _ _ => 0
  select := fun _ value => value
  math := fun _ operands => operands.sum

namespace Wired

open Lowering

theorem Coherent.binding?_eq {wired : WiredMaterial} (coherent : wired.Coherent) {id : NodeId}
    {node : MaterialNode} (found : wired.node? id = some node) {input : InputSlot}
    (member : input ∈ node.inputs) : wired.binding? id input.id = input.binding := by
  have slotFound := coherent.input?_of_mem found member
  unfold binding?
  simp only [found, slotFound]

theorem Coherent.ports {wired : WiredMaterial} (coherent : wired.Coherent) {id : NodeId}
    {node : MaterialNode} (found : wired.node? id = some node) {block : Block}
    (kind : node.kind = .output block) :
    List.Forall₂ (fun (port : BlockPort × Nat) (slot : InputSlot) =>
        slot.id = UInt32.ofNat port.2 ∧ slot.name = port.1.name ∧
          wired.binding? id (UInt32.ofNat port.2) = slot.binding)
      block.ports.zipIdx node.inputs := by
  have layouts := (coherent.laid found).inputs
  rw [kind] at layouts
  have fits := List.forall₂_map_left_iff.1 layouts
  apply ((List.forall₂_and_left _ _).2 ⟨fun _ member => member, fits.flip⟩).flip.imp
  rintro port slot ⟨member, fits⟩
  refine ⟨fits.id, fits.name, ?_⟩
  rw [← coherent.binding?_eq found member]
  exact congrArg (wired.binding? id) fits.id.symm

theorem Coherent.bound_ports {wired : WiredMaterial} (coherent : wired.Coherent) {id : NodeId}
    {node : MaterialNode} (found : wired.node? id = some node) {block : Block}
    (kind : node.kind = .output block) :
    List.Forall₂ (fun (port : BlockPort × Nat) (slot : InputSlot) =>
        slot.id = UInt32.ofNat port.2 ∧ slot.name = port.1.name ∧
          wired.binding? id (UInt32.ofNat port.2) = slot.binding)
      (block.ports.zipIdx.filter fun port => (wired.binding? id (UInt32.ofNat port.2)).isSome)
      (node.inputs.filter fun slot => slot.binding.isSome) := by
  refine List.rel_filter ?_ (coherent.ports found kind)
  intro port slot same
  simp only [same.2.2]

/-- The results of a compiled root are those of its graph. For an output block they stand for the
ports that are bound, in their order; for any other node they stand for its output slots. -/
theorem compileRoot_preserves_meaning {Value : Type} (meaning : Interpretation Value)
    {graph : Material} (built : graph.Built) {links : LinkPolicy} {wired : WiredMaterial}
    (wire : graph.wire links = .ok wired) {policy : ErrorPolicy} {root : NodeId}
    {compiled : CompiledRoot} (ok : wired.compileRoot policy root = .ok compiled) :
    ∃ node, wired.node? root = some node ∧
      (∀ block, node.kind = .output block →
        List.Forall₂ (fun (port : BlockPort × Nat) (result : Lowering.Result) =>
            result.name = port.1.name ∧
            ∃ value, meaning.input (.top wired) root (UInt32.ofNat port.2) = some (some value) ∧
              meaning.eval compiled.exprs result.expr = some (.value value))
          (block.ports.zipIdx.filter fun port =>
            (wired.binding? root (UInt32.ofNat port.2)).isSome)
          compiled.results) ∧
      ((∀ block, node.kind ≠ .output block) →
        List.Forall₂ (fun (slot : OutputSlot) (result : Lowering.Result) =>
            result.name = slot.name ∧
            ∃ value, meaning.output (.top wired) root slot.id = some value ∧
              meaning.eval compiled.exprs result.expr = some (.value value))
          node.kind.outputs compiled.results) := by
  have coherent := coherent_of_wire built wire
  obtain ⟨_, _, ordered, _, node, found, reported⟩ := compiled_sound coherent ok
  have top : Matches meaning compiled.exprs (.top wired compiled.types) (.top wired) :=
    ⟨rfl, rfl, List.Forall₂.nil⟩
  refine ⟨node, found, ?_, ?_⟩
  · intro block kind
    unfold Reported at reported
    simp only [kind] at reported
    apply (forall₂_trans (coherent.bound_ports found kind) reported).imp
    rintro port result ⟨slot, ⟨slotId, name, _⟩, named, represents⟩
    obtain ⟨value, evaluated, reached⟩ := represents.agrees ordered coherent top
    exact ⟨named.trans name, value, slotId ▸ reached, evaluated⟩
  · intro notBlock
    have exposed : List.Forall₂ (fun (slot : OutputSlot) (result : Lowering.Result) =>
        result.name = slot.name ∧ Represents compiled.exprs (.top wired compiled.types)
          (.output root slot.id) result.expr) node.outputs compiled.results := by
      unfold Reported at reported
      split at reported
      · rename_i block kind
        exact absurd kind (notBlock block)
      · exact reported
    rw [← (coherent.laid found).outputs]
    apply exposed.imp
    rintro slot result ⟨named, represents⟩
    obtain ⟨value, evaluated, reached⟩ := represents.agrees ordered coherent top
    exact ⟨named, value, reached, evaluated⟩

/-- The one bound port has the double of the uniform, by the graph as by its expressions. -/
theorem compileRoot_preserves_meaning_caller :
    ∃ digest compiled result value,
      (Sample.callerWired digest).compileRoot .collectAll 12 = .ok compiled ∧
      compiled.results = [result] ∧ result.name = "Opacity" ∧
      Sample.sums.input (.top (Sample.callerWired digest)) 12 1 = some (some value) ∧
      Sample.sums.eval compiled.exprs result.expr = some (.value value) := by
  rcases Sample.caller_compiles with ⟨compiled, ok⟩
  rcases compileRoot_preserves_meaning Sample.sums (Sample.caller_built Sample.callee_built)
    (Sample.caller_wire Sample.calleeDigest) ok with ⟨node, found, ports, _⟩
  have kinds : ((Sample.callerWired Sample.calleeDigest).node? 12).map Node.kind =
      some (.output .unlit) := rfl
  rw [found] at kinds
  have bound := ports .unlit (Option.some.inj kinds)
  have only : (Block.unlit.ports.zipIdx.filter fun port =>
      ((Sample.callerWired Sample.calleeDigest).binding? 12 (UInt32.ofNat port.2)).isSome) =
      [(⟨"Opacity", .single .scalar, .scalar⟩, 1)] := by decide +kernel
  rw [only] at bound
  rcases List.forall₂_cons_left_iff.1 bound with ⟨result, rest, ⟨named, value, reached, evaluated⟩,
    none, results⟩
  rw [List.forall₂_nil_left_iff.1 none] at results
  exact ⟨_, compiled, result, value, ok, results, named, reached, evaluated⟩

end Wired

end MaterialGraph
