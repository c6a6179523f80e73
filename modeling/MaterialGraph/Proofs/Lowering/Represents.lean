import MaterialGraph.Lowering.Body
import MaterialGraph.Proofs.Callable.Body
import MaterialGraph.Proofs.Expr.List

/-!
What the expressions of a lowered body stand for. An expression represents a node, an output slot
or an input slot of a body when it has the form that lowering gives it and its operands represent
what feeds it. The list of expressions only grows, so what was represented stays so.
-/

set_option autoImplicit false

namespace MaterialGraph

namespace Lowering

/-- What an expression may stand for: a node, one of its outputs, or what feeds one of its
inputs. -/
inductive Place where
  | node (id : NodeId)
  | output (id : NodeId) (slot : SlotId)
  | input (id : NodeId) (slot : SlotId)

def Place.id : Place → NodeId
  | node id => id
  | output id _ => id
  | input id _ => id

def Body.freeName (body : Body) (id : NodeId) (name : Option String) : String :=
  body.qualified (name.getD ("arg_" ++ toString id.toNat))

inductive Represents (exprs : ExprList) : Body → Place → ExprId → Prop
  | constant {body : Body} {id : NodeId} {node : MaterialNode} {value : Literal}
      {parameter : Option String} {expr : ExprId} :
      body.wired.node? id = some node → node.kind = .constant value parameter →
      exprs.Holds expr (.constant value (parameter.map body.qualified)) (some value.type) →
      Represents exprs body (.node id) expr
  | textureRef {body : Body} {id : NodeId} {node : MaterialNode} {name : String}
      {source : Option String} {expr : ExprId} :
      body.wired.node? id = some node → node.kind = .textureRef name source →
      exprs.Holds expr (.texture (body.qualified name)) (some .texture) →
      Represents exprs body (.node id) expr
  | sample {body : Body} {id : NodeId} {node : MaterialNode} {image coordinate : ExprId}
      {level : Option ExprId} {lod : InputSlot} {expr : ExprId} :
      body.wired.node? id = some node → node.kind = .textureSample →
      Represents exprs body (.input id Kind.textureSlot) image →
      Represents exprs body (.input id Kind.coordinateSlot) coordinate →
      node.input? Kind.levelSlot = some lod →
      (∀ value, level = some value → Represents exprs body (.input id Kind.levelSlot) value) →
      (level = none → lod.binding = none ∧ lod.default = none) →
      exprs.Holds expr (.sample image coordinate level) (some .vec4) →
      Represents exprs body (.node id) expr
  | math {body : Body} {id : NodeId} {node : MaterialNode} {op : MathOp}
      {operands : List ExprId} {type : ValueType} {expr : ExprId} :
      body.wired.node? id = some node → node.kind = .math op →
      node.inputs.length = operands.length →
      (∀ input operand, (input, operand) ∈ node.inputs.zip operands →
        Represents exprs body (.input id input.id) operand) →
      body.types.find? (id, 0) = some type →
      exprs.Holds expr (.math op operands) (some type) →
      Represents exprs body (.node id) expr
  | argument {body : Body} {id : NodeId} {node : MaterialNode} {name : Option String}
      {type : ValueType} {default : Option Literal} {expr : ExprId} :
      body.wired.node? id = some node → node.kind = .functionInput name type default →
      body.arguments.find? id = some expr → Represents exprs body (.node id) expr
  | freeParameter {body : Body} {id : NodeId} {node : MaterialNode} {name : Option String}
      {type : ValueType} {default : Option Literal} {zero : Literal} {expr : ExprId} :
      body.wired.node? id = some node → node.kind = .functionInput name type default →
      body.arguments.find? id = none → Literal.zero? type = some zero →
      exprs.Holds expr (.constant (default.getD zero) (some (body.freeName id name))) (some type) →
      Represents exprs body (.node id) expr
  | freeTexture {body : Body} {id : NodeId} {node : MaterialNode} {name : Option String}
      {type : ValueType} {default : Option Literal} {expr : ExprId} :
      body.wired.node? id = some node → node.kind = .functionInput name type default →
      body.arguments.find? id = none → Literal.zero? type = none →
      exprs.Holds expr (.texture (body.freeName id name)) (some .texture) →
      Represents exprs body (.node id) expr
  | functionOutput {body : Body} {id : NodeId} {node : MaterialNode} {name : Option String}
      {accepts : TypeSet} {expr : ExprId} :
      body.wired.node? id = some node → node.kind = .functionOutput name accepts →
      Represents exprs body (.input id 0) expr → Represents exprs body (.node id) expr
  | call {body : Body} {id : NodeId} {node : MaterialNode} {callee : Callable}
      {arguments : Table NodeId ExprId} {outputs : List ExprId} {expr : ExprId} :
      body.wired.node? id = some node → node.kind = .call (.resolved callee) →
      arguments.map Prod.fst = callee.inputs.map Formal.node →
      (∀ formal argument, (formal, argument) ∈ callee.inputs.zip arguments →
        Represents exprs body (.input id formal.index) argument.2) →
      callee.outputs.length = outputs.length →
      (∀ formal output, (formal, output) ∈ callee.outputs.zip outputs →
        Represents exprs (body.called id callee arguments) (.node formal.node) output) →
      exprs.Holds expr (.call callee.name outputs) none →
      Represents exprs body (.node id) expr
  | whole {body : Body} {id : NodeId} {slot : SlotId} {node : MaterialNode} {output : OutputSlot}
      {expr : ExprId} :
      body.wired.node? id = some node → node.output? slot = some output →
      Represents exprs body (.node id) expr → projection? node slot expr = none →
      Represents exprs body (.output id slot) expr
  | part {body : Body} {id : NodeId} {slot : SlotId} {node : MaterialNode} {output : OutputSlot}
      {value : ExprId} {kind : ExprKind} {expr : ExprId} :
      body.wired.node? id = some node → node.output? slot = some output →
      Represents exprs body (.node id) value → projection? node slot value = some kind →
      exprs.Holds expr kind output.type → Represents exprs body (.output id slot) expr
  | bound {body : Body} {id : NodeId} {slot : SlotId} {node : MaterialNode} {input : InputSlot}
      {binding : Binding} {expr : ExprId} :
      body.wired.node? id = some node → node.input? slot = some input →
      input.binding = some binding →
      Represents exprs body (.output binding.node binding.output) expr →
      Represents exprs body (.input id slot) expr
  | default {body : Body} {id : NodeId} {slot : SlotId} {node : MaterialNode} {input : InputSlot}
      {value : Literal} {expr : ExprId} :
      body.wired.node? id = some node → node.input? slot = some input →
      input.binding = none → input.default = some value →
      exprs.Holds expr (.constant value none) (some value.type) →
      Represents exprs body (.input id slot) expr

theorem Represents.extend {old new : ExprList} (grown : old.Extends new) {body : Body}
    {place : Place} {expr : ExprId} (represents : Represents old body place expr) :
    Represents new body place expr := by
  induction represents with
  | constant found kind held => exact .constant found kind (held.extend grown)
  | textureRef found kind held => exact .textureRef found kind (held.extend grown)
  | sample found kind _ _ lod _ unfed held image coordinate level =>
      exact .sample found kind image coordinate lod level unfed (held.extend grown)
  | math found kind length _ typed held operands =>
      exact .math found kind length operands typed (held.extend grown)
  | argument found kind given => exact .argument found kind given
  | freeParameter found kind free zero held =>
      exact .freeParameter found kind free zero (held.extend grown)
  | freeTexture found kind free zero held =>
      exact .freeTexture found kind free zero (held.extend grown)
  | functionOutput found kind _ value => exact .functionOutput found kind value
  | call found kind keys _ length _ held arguments outputs =>
      exact .call found kind keys arguments length outputs (held.extend grown)
  | whole found slot _ plain value => exact .whole found slot value plain
  | part found slot _ projected held value =>
      exact .part found slot value projected (held.extend grown)
  | bound found slot bound _ value => exact .bound found slot bound value
  | default found slot unbound given held =>
      exact .default found slot unbound given (held.extend grown)

theorem Represents.lt_length {exprs : ExprList} {body : Body} {place : Place} {expr : ExprId}
    (represents : Represents exprs body place expr)
    (arguments : ∀ id expr, body.arguments.find? id = some expr → expr < exprs.length) :
    expr < exprs.length := by
  induction represents with
  | argument _ _ given => exact arguments _ _ given
  | functionOutput _ _ _ value => exact value arguments
  | whole _ _ _ _ value => exact value arguments
  | bound _ _ _ _ value => exact value arguments
  | constant _ _ held => exact held.lt_length
  | textureRef _ _ held => exact held.lt_length
  | sample _ _ _ _ _ _ _ held => exact held.lt_length
  | math _ _ _ _ _ held => exact held.lt_length
  | freeParameter _ _ _ _ held => exact held.lt_length
  | freeTexture _ _ _ _ held => exact held.lt_length
  | call _ _ _ _ _ _ held => exact held.lt_length
  | part _ _ _ _ held => exact held.lt_length
  | default _ _ _ _ held => exact held.lt_length

/-- The bodies that are lowered inside of a body: itself, and the callees of its calls, with the
expressions of the arguments. -/
inductive Inlined (exprs : ExprList) (top : Body) : Body → Prop
  | top : Inlined exprs top top
  | call {body : Body} {id : NodeId} {node : MaterialNode} {callee : Callable}
      {arguments : Table NodeId ExprId} :
      Inlined exprs top body → body.wired.node? id = some node →
      node.kind = .call (.resolved callee) → Typing.Valid body.wired id →
      arguments.map Prod.fst = callee.inputs.map Formal.node →
      (∀ formal argument, (formal, argument) ∈ callee.inputs.zip arguments →
        Represents exprs body (.input id formal.index) argument.2) →
      Inlined exprs top (body.called id callee arguments)

theorem Inlined.extend {old new : ExprList} (grown : old.Extends new) {top body : Body}
    (inlined : Inlined old top body) : Inlined new top body := by
  induction inlined with
  | top => exact .top
  | call _ found kind valid keys arguments ih =>
      exact .call ih found kind valid keys fun formal argument pair =>
        (arguments formal argument pair).extend grown

theorem Inlined.trans {exprs : ExprList} {top middle body : Body}
    (outer : Inlined exprs top middle) (inner : Inlined exprs middle body) :
    Inlined exprs top body := by
  induction inner with
  | top => exact outer
  | call _ found kind valid keys arguments ih => exact .call ih found kind valid keys arguments

/-- An expression that represents a place of a valid node, in a body or inside of it. -/
def Placed (exprs : ExprList) (top : Body) (expr : ExprId) : Prop :=
  ∃ body place, Inlined exprs top body ∧ Typing.Valid body.wired place.id ∧
    Represents exprs body place expr

theorem Placed.extend {old new : ExprList} (grown : old.Extends new) {top : Body} {expr : ExprId}
    (placed : Placed old top expr) : Placed new top expr := by
  obtain ⟨body, place, inlined, valid, represents⟩ := placed
  exact ⟨body, place, inlined.extend grown, valid, represents.extend grown⟩

end Lowering

end MaterialGraph
