import MaterialGraph.Graph.Typing
import MaterialGraph.Proofs.Expr.List
import MaterialGraph.Proofs.Lists

/-!
Typing rules for expressions. Operands have types, which calls lack, so that a call is an operand
of its results alone.
-/

set_option autoImplicit false

namespace MaterialGraph

namespace ExprList

def HasType (exprs : ExprList) (id : ExprId) (type : ValueType) : Prop :=
  ∃ kind, exprs.Holds id kind (some type)

theorem Holds.hasType {exprs : ExprList} {id : ExprId} {kind : ExprKind} {type : ValueType}
    (held : exprs.Holds id kind (some type)) : exprs.HasType id type := ⟨kind, held⟩

theorem HasType.extend {old new : ExprList} (grown : old.Extends new) {id : ExprId}
    {type : ValueType} (typed : old.HasType id type) : new.HasType id type := by
  rcases typed with ⟨kind, held⟩
  exact ⟨kind, held.extend grown⟩

theorem HasType.unique {exprs : ExprList} {id : ExprId} {left right : ValueType}
    (first : exprs.HasType id left) (second : exprs.HasType id right) : left = right := by
  rcases first with ⟨_, held⟩
  rcases second with ⟨_, heldToo⟩
  exact Option.some.inj (held.unique heldToo).2

/-- A kind of expression with a type that its operands allow. -/
inductive WellTyped (exprs : ExprList) : ExprKind → Option ValueType → Prop
  | literal {value : Literal} : WellTyped exprs (.constant value none) (some value.type)
  | uniform {value : Literal} {name : String} {type : ValueType} :
      WellTyped exprs (.constant value (some name)) (some type)
  | texture {name : String} : WellTyped exprs (.texture name) (some .texture)
  | sample {image coordinate : ExprId} {level : Option ExprId} :
      exprs.HasType image .texture → exprs.HasType coordinate .vec2 →
      (∀ value, level = some value → exprs.HasType value .scalar) →
      WellTyped exprs (.sample image coordinate level) (some .vec4)
  | swizzle {source : ExprId} {components : List Component} {type : ValueType} :
      exprs.HasType source .vec4 → (∀ component ∈ components, component.lane?.isSome = true) →
      type.lanes? = some components.length →
      WellTyped exprs (.swizzle source components) (some type)
  | math {op : MathOp} {operands : List ExprId} {types : List ValueType} {type : ValueType} :
      List.Forall₂ exprs.HasType operands types → op.resultType types = .ok type →
      WellTyped exprs (.math op operands) (some type)
  | call {function : String} {outputs : List ExprId} {types : List ValueType} :
      List.Forall₂ exprs.HasType outputs types → WellTyped exprs (.call function outputs) none
  | result {aggregate : ExprId} {index : Nat} {function : String} {outputs : List ExprId}
      {output : ExprId} {type : ValueType} :
      exprs.Holds aggregate (.call function outputs) none → outputs[index]? = some output →
      exprs.HasType output type → WellTyped exprs (.result aggregate index) (some type)

theorem WellTyped.extend {old new : ExprList} (grown : old.Extends new) {kind : ExprKind}
    {type : Option ValueType} (typed : old.WellTyped kind type) : new.WellTyped kind type := by
  cases typed with
  | literal => exact .literal
  | uniform => exact .uniform
  | texture => exact .texture
  | sample image coordinate level =>
      exact .sample (image.extend grown) (coordinate.extend grown)
        fun value given => (level value given).extend grown
  | swizzle source lanes width => exact .swizzle (source.extend grown) lanes width
  | math operands combined =>
      exact .math (operands.imp fun _ _ typed => typed.extend grown) combined
  | call outputs => exact .call (outputs.imp fun _ _ typed => typed.extend grown)
  | result aggregate index output =>
      exact .result (aggregate.extend grown) index (output.extend grown)

theorem WellTyped.type_eq_none_of_call {exprs : ExprList} {kind : ExprKind}
    {type : Option ValueType} (typed : exprs.WellTyped kind type) {function : String}
    {outputs : List ExprId} (calls : kind = .call function outputs) : type = none := by
  subst calls
  cases typed
  rfl

/-- Where all expressions are well typed, a call is used by its results alone. -/
theorem WellTyped.eq_result_of_call {exprs : ExprList} {kind : ExprKind}
    {type : Option ValueType} (typed : exprs.WellTyped kind type) {operand : ExprId}
    (member : operand ∈ kind.operands) {function : String} {outputs : List ExprId}
    (calls : exprs.Holds operand (.call function outputs) none) :
    ∃ index, kind = .result operand index := by
  have typeless : ∀ found, ¬exprs.HasType operand found := by
    intro found typed
    rcases typed with ⟨_, held⟩
    cases (calls.unique held).2
  cases typed with
  | literal => cases member
  | uniform => cases member
  | texture => cases member
  | sample image coordinate level =>
      simp only [ExprKind.operands, List.mem_cons, Option.mem_toList] at member
      rcases member with rfl | rfl | given
      · exact absurd image (typeless _)
      · exact absurd coordinate (typeless _)
      · exact absurd (level operand given) (typeless _)
  | swizzle source lanes width =>
      cases List.mem_singleton.1 member
      exact absurd source (typeless _)
  | math operands combined =>
      rcases exists_related_of_mem operands member with ⟨found, _, typed⟩
      exact absurd typed (typeless found)
  | call outputs =>
      rcases exists_related_of_mem outputs member with ⟨found, _, typed⟩
      exact absurd typed (typeless found)
  | result aggregate index output =>
      cases List.mem_singleton.1 member
      exact ⟨_, rfl⟩

end ExprList

end MaterialGraph
