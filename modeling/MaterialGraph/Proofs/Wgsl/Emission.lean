import MaterialGraph.Proofs.Expr.Typing
import MaterialGraph.Wgsl.Module

/-!
Emission has a way out for expressions without a type, for results that are none of a call, and
for operands that do not exist. On well typed expressions no way out is taken: whatever is put in
its place, the same code is emitted.
-/

set_option autoImplicit false

namespace MaterialGraph.Wgsl

structure Fallback where
  uniform : ValueType
  source : ValueType
  operand : ValueType
  result : ValueType
  code : Emit Code

def emitKindOr (fallback : Fallback) (settings : TargetSettings) (exprs : ExprList)
    (operand : ExprId → Emit Code) (expr : Expr) : Emit Code :=
  match expr.kind with
  | .constant value none => pure (.literal value)
  | .constant _ (some name) => do
      declareUniform name (expr.type.getD fallback.uniform)
      pure (.uniform settings.uniformBinding name)
  | .texture _ => emitKind settings exprs operand expr
  | .sample _ _ _ => emitKind settings exprs operand expr
  | .swizzle source components => do
      let code ← operand source
      pure (code.swizzle (operandType exprs fallback.source source) components)
  | .math op operands => do
      let lowered ← operands.mapM fun id => do
        let code ← operand id
        pure (code, operandType exprs fallback.operand id)
      pure (.math op lowered (expr.type.getD fallback.result))
  | .call _ _ => fallback.code
  | .result aggregate index =>
      match exprs[aggregate]? with
      | some ⟨.call _ outputs, _, _⟩ =>
          match outputs[index]? with
          | some output => operand output
          | none => fallback.code
      | _ => fallback.code

def emitOr (fallback : Fallback) (settings : TargetSettings) (exprs : ExprList) (id : ExprId) :
    Emit Code := do
  let module ← get
  match module.locals.find? id with
  | some name => pure (.shared name)
  | none =>
      match exprs[id]? with
      | none => fallback.code
      | some expr => do
          let code ← emitKindOr fallback settings exprs
            (fun operand =>
              if operand < id then emitOr fallback settings exprs operand else fallback.code)
            expr
          share settings id expr code
termination_by id

variable {exprs : ExprList}

theorem operandType_eq {id : ExprId} {type : ValueType} (typed : exprs.HasType id type)
    (missing : ValueType) : operandType exprs missing id = type := by
  rcases typed with ⟨kind, held⟩
  rcases ExprList.holds_iff.1 held with ⟨expr, found, _, hasType⟩
  unfold operandType
  simp only [found, hasType, Option.getD_some]

/-- An expression with a type is emitted without a way out, if its operands are. -/
theorem emitKindOr_eq (fallback : Fallback) (settings : TargetSettings)
    (ordered : exprs.OrderedFrom 0) {id : ExprId} {expr : Expr} {type : ValueType}
    (hasType : expr.type = some type) (held : exprs.Holds id expr.kind expr.type)
    (rules : exprs.WellTyped expr.kind expr.type) {left right : ExprId → Emit Code}
    (same : ∀ operand, operand < id → ∀ found, exprs.HasType operand found →
      left operand = right operand) :
    emitKindOr fallback settings exprs left expr = emitKind settings exprs right expr := by
  have below := ordered id _ _ (Nat.zero_le id) held
  obtain ⟨kind, exprType, uses⟩ := expr
  subst hasType
  cases rules with
  | literal => rfl
  | uniform => rfl
  | texture => rfl
  | @sample image coordinate level imageType coordinateType levelType =>
      have atImage := same image (below image List.mem_cons_self) _ imageType
      have atCoordinate := same coordinate
        (below coordinate (List.mem_cons_of_mem _ List.mem_cons_self)) _ coordinateType
      cases level with
      | none => simp only [emitKindOr, emitKind, atImage, atCoordinate]
      | some level =>
          have atLevel := same level (below level (by simp [ExprKind.operands])) _
            (levelType level rfl)
          simp only [emitKindOr, emitKind, atImage, atCoordinate, atLevel]
  | @swizzle source components _ sourceType lanes width =>
      have atSource := same source (below source List.mem_cons_self) _ sourceType
      simp only [emitKindOr, emitKind, atSource, operandType_eq sourceType]
  | @math op operands types _ operandTypes combined =>
      have atOperands : (operands.mapM fun operand => do
            let code ← left operand
            pure (code, operandType exprs fallback.operand operand)) =
          (operands.mapM fun operand => do
            let code ← right operand
            pure (code, operandType exprs .scalar operand)) := by
        apply mapM_congr
        intro operand member
        rcases exists_related_of_mem operandTypes member with ⟨found, _, typed⟩
        rw [same operand (below operand member) found typed, operandType_eq typed,
          operandType_eq typed]
      simp only [emitKindOr, emitKind, atOperands, Option.getD_some]
  | @result aggregate index function outputs output _ calls atIndex outputType =>
      rcases ExprList.holds_iff.1 calls with ⟨⟨_, _, _⟩, found, rfl, rfl⟩
      have early : output < aggregate :=
        ordered aggregate _ _ (Nat.zero_le _) calls output (List.mem_of_getElem? atIndex)
      have atOutput := same output
        (Nat.lt_trans early (below aggregate List.mem_cons_self)) _ outputType
      simp only [emitKindOr, emitKind, found, atIndex, atOutput]

/-- Emitting a well typed expression never takes a way out. -/
theorem emitOr_eq_emit (fallback : Fallback) (settings : TargetSettings)
    (ordered : exprs.OrderedFrom 0)
    (wellTyped : ∀ expr ∈ exprs, exprs.WellTyped expr.kind expr.type) {id : ExprId}
    {type : ValueType} (typed : exprs.HasType id type) :
    emitOr fallback settings exprs id = emit settings exprs id := by
  induction id using Nat.strongRecOn generalizing type with
  | _ id ih =>
      rcases typed with ⟨kind, held⟩
      rcases ExprList.holds_iff.1 held with ⟨expr, found, rfl, hasType⟩
      have rules := wellTyped expr (List.mem_of_getElem? found)
      rw [← hasType] at held
      have operands : ∀ operand, operand < id → ∀ found, exprs.HasType operand found →
          (if operand < id then emitOr fallback settings exprs operand else fallback.code) =
            if operand < id then emit settings exprs operand else pure .nothing := by
        intro operand below found typed
        rw [if_pos below, if_pos below]
        exact ih operand below typed
      have emitted := emitKindOr_eq fallback settings ordered hasType held rules operands
      rw [emitOr, emit]
      apply bind_congr
      intro module
      cases module.locals.find? id with
      | some name => rfl
      | none => simp only [found, emitted]

end MaterialGraph.Wgsl
