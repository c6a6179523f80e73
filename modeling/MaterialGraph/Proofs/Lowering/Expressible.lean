import MaterialGraph.Proofs.Lowering.Typing

/-!
What shader code needs beyond the typing rules. Literals are finite numbers, uniforms are no
textures, and operations have the operands that they are made for. Lowering gives this to every
expression, also in callees, if the literals of the graph and of the graphs it calls are finite.
-/

set_option autoImplicit false

namespace MaterialGraph

namespace ExprList

def Expressible (exprs : ExprList) (kind : ExprKind) (type : Option ValueType) : Prop :=
  match kind with
  | .constant value none => value.isFinite = true
  | .constant _ (some _) => type ≠ some .texture
  | .math op operands => operands.length = op.operandNames.length ∧
      ∀ operand ∈ operands, ∀ found, exprs.HasType operand found →
        op.operandTypes.contains found = true
  | _ => True

def ExpressibleAt (exprs : ExprList) (id : ExprId) : Prop :=
  ∃ kind type, exprs.Holds id kind type ∧ exprs.Expressible kind type

theorem ExpressibleAt.expressible {exprs : ExprList} {id : ExprId}
    (expressible : exprs.ExpressibleAt id) {expr : Expr} (found : exprs[id]? = some expr) :
    exprs.Expressible expr.kind expr.type := by
  obtain ⟨kind, type, held, rules⟩ := expressible
  have here : exprs.Holds id expr.kind expr.type := holds_iff.2 ⟨expr, found, rfl, rfl⟩
  obtain ⟨rfl, rfl⟩ := held.unique here
  exact rules

end ExprList

def Node.literals {Target : Type} (node : Node Target) : List Literal :=
  node.kind.literals ++ node.inputs.filterMap InputSlot.default

inductive Graph.Finite : Material → Prop
  | intro {graph : Material} :
      (∀ node ∈ graph.nodes, ∀ value ∈ node.literals, value.isFinite = true) →
      (∀ node ∈ graph.nodes, ∀ callee, node.kind = .call (.resolved callee) →
        Finite callee.body.graph) → Finite graph

theorem Node.literals_unbind {Target : Type} (node : Node Target) :
    node.unbind.literals = node.literals := by
  simp only [literals, unbind_inputs, List.filterMap_map]
  rfl

theorem Graph.Finite.wire {graph : Material} (finite : graph.Finite) {policy : LinkPolicy}
    {wired : WiredMaterial} (wire : graph.wire policy = .ok wired) : wired.graph.Finite := by
  have wires := Graph.wires_of_wire wire
  have original : ∀ node ∈ wired.graph.nodes, ∃ old ∈ graph.nodes, old.unbind = node.unbind := by
    intro node member
    have listed : node.unbind ∈ graph.nodes.map Node.unbind :=
      wires.nodes ▸ List.mem_map_of_mem member
    exact List.mem_map.1 listed
  obtain ⟨literals, callees⟩ := finite
  constructor
  · intro node member value listed
    obtain ⟨old, oldMember, same⟩ := original node member
    rw [← node.literals_unbind, ← same, old.literals_unbind] at listed
    exact literals old oldMember value listed
  · intro node member callee kind
    obtain ⟨old, oldMember, same⟩ := original node member
    have kinds : old.kind = node.kind := congrArg (fun node => node.kind) same
    exact callees old oldMember callee (kinds.trans kind)

namespace Lowering

open Typing

structure FiniteBody (exprs : ExprList) (body : Body) : Prop where
  graph : body.wired.graph.Finite
  arguments : ∀ id expr, body.arguments.find? id = some expr → exprs.ExpressibleAt expr

variable {exprs : ExprList} {body : Body} {id : NodeId} {node : MaterialNode} {expr : ExprId}

theorem FiniteBody.literal (finite : FiniteBody exprs body)
    (found : body.wired.node? id = some node) {value : Literal} (listed : value ∈ node.literals) :
    value.isFinite = true := by
  obtain ⟨literals, _⟩ := finite.graph
  exact literals node (Graph.mem_of_node? found).1 value listed

theorem expressible_constant (finite : FiniteBody exprs body)
    (found : body.wired.node? id = some node) {value : Literal} {parameter : Option String}
    (kind : node.kind = .constant value parameter)
    (held : exprs.Holds expr (.constant value (parameter.map body.qualified)) (some value.type)) :
    exprs.ExpressibleAt expr := by
  refine ⟨_, _, held, ?_⟩
  cases parameter with
  | none =>
      apply finite.literal found
      simp [Node.literals, kind, Kind.literals]
  | some name =>
      intro texture
      cases value <;> cases texture

theorem expressible_math (typed : TypedBody exprs body) (found : body.wired.node? id = some node)
    {op : MathOp} (kind : node.kind = .math op) {operands : List ExprId}
    (atOperands : List.Forall₂ (fun (input : InputSlot) operand =>
      TypedAt exprs body operand (.input id input.id)) node.inputs operands)
    {type : Option ValueType} (held : exprs.Holds expr (.math op operands) type) :
    exprs.ExpressibleAt expr := by
  have laid := typed.coherent.laid found
  have layouts := laid.inputs
  rw [kind] at layouts
  refine ⟨_, _, held, ?_, ?_⟩
  · rw [← atOperands.length_eq, ← layouts.length_eq]
    simp [Kind.inputs]
  · intro operand member type hasType
    have known := (List.forall₂_and_left _ _).2 ⟨fun _ member => member, atOperands⟩
    obtain ⟨input, _, listed, atOperand⟩ := exists_related_of_mem known.flip member
    obtain ⟨other, derived, hasOther⟩ := atOperand.of_member typed.coherent found listed
    obtain ⟨layout, layoutListed, fits⟩ := laid.exists_layout listed
    have allowed := derived.allowed
    rw [hasOther.unique hasType, fits.allowed] at allowed
    rw [kind] at layoutListed
    obtain ⟨⟨name, position⟩, _, rfl⟩ := List.mem_map.1 layoutListed
    exact allowed

theorem expressible_projection {slot : SlotId} {value : ExprId} {part : ExprKind}
    (projected : projection? node slot value = some part) {type : Option ValueType} :
    exprs.Expressible part type := by
  unfold projection? at projected
  split at projected
  · split at projected <;> cases projected <;> trivial
  · cases projected
    trivial
  · cases projected

/-- What an expression represents decides whether it can be written. The types of the operands are
those of the inputs that they represent. -/
theorem Represents.expressible {place : Place} (represents : Represents exprs body place expr) :
    TypedBody exprs body → FiniteBody exprs body → Valid body.wired place.id →
      exprs.ExpressibleAt expr := by
  induction represents with
  | constant found kind held =>
      intro _ finite _
      exact expressible_constant finite found kind held
  | math found kind length operands _ held _ =>
      intro typed _ valid
      have atOperands := List.forall₂_iff_zip.2
        ⟨length, fun {input operand} pair => ((operands input operand pair).typed typed valid).2⟩
      exact expressible_math typed found kind atOperands held
  | argument _ _ given =>
      intro _ finite _
      exact finite.arguments _ _ given
  | @freeParameter _ _ _ _ type _ _ _ _ _ _ zero held =>
      intro _ _ _
      refine ⟨_, _, held, ?_⟩
      rintro texture
      cases texture
      cases zero
  | functionOutput _ _ _ value =>
      intro typed finite valid
      exact value typed finite valid
  | whole _ _ _ _ value =>
      intro typed finite valid
      exact value typed finite valid
  | part _ _ _ projected held _ =>
      intro _ _ _
      exact ⟨_, _, held, expressible_projection projected⟩
  | bound found slot bound _ value =>
      intro typed finite valid
      exact value typed finite (valid.of_binding found (Node.mem_of_input? slot).1 bound)
  | default found slot _ given held =>
      intro _ finite _
      refine ⟨_, _, held, finite.literal found ?_⟩
      exact List.mem_append_right _
        (List.mem_filterMap.2 ⟨_, (Node.mem_of_input? slot).1, given⟩)
  | textureRef _ _ held =>
      intro _ _ _
      exact ⟨_, _, held, trivial⟩
  | sample _ _ _ _ _ _ _ held _ _ _ =>
      intro _ _ _
      exact ⟨_, _, held, trivial⟩
  | freeTexture _ _ _ _ held =>
      intro _ _ _
      exact ⟨_, _, held, trivial⟩
  | call _ _ _ _ _ _ held _ _ =>
      intro _ _ _
      exact ⟨_, _, held, trivial⟩

/-- Every callee that is lowered inside of a body with finite literals has finite literals. -/
theorem Inlined.finite {top : Body} (inlined : Inlined exprs top body)
    (typed : TypedBody exprs top) (finite : FiniteBody exprs top) : FiniteBody exprs body := by
  induction inlined with
  | top => exact finite
  | @call body id node callee arguments inlined found kind valid keys represents ih =>
      obtain ⟨_, callees⟩ := ih.graph
      refine ⟨callees node (Graph.mem_of_node? found).1 callee kind, ?_⟩
      intro inner expr given
      obtain ⟨formal, _, represented⟩ := exists_related_of_mem
        (forall₂_of_zip keys represents).flip (Table.mem_of_find? given)
      exact represented.expressible (inlined.typed typed) ih valid

theorem Placed.expressible {top : Body} (placed : Placed exprs top expr)
    (typed : TypedBody exprs top) (finite : FiniteBody exprs top) : exprs.ExpressibleAt expr := by
  obtain ⟨body, place, inlined, valid, represents⟩ := placed
  exact represents.expressible (inlined.typed typed) (inlined.finite typed finite) valid

end Lowering

end MaterialGraph
