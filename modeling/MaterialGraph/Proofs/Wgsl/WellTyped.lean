import MaterialGraph.Proofs.Lowering.Expressible
import MaterialGraph.Proofs.Wgsl.Emission
import MaterialGraph.Proofs.Wgsl.Typing

/-!
Emitted code is well typed. The code of an expression has the type of the expression wherever all
that it refers to is in scope, and so has the value of every local, in the scope of the locals
before it.
-/

set_option autoImplicit false

namespace MaterialGraph.Wgsl

/-- Code for an expression of a type: the name of a declared texture, or a number. -/
inductive Denotes (holder : String) (scope : Scope) : Code → ValueType → Prop
  | texture {name : String} : name ∈ scope.textures → Denotes holder scope (.texture name) .texture
  | number {code : Code} {type : ValueType} : TypeSet.numeric.contains type = true →
      HasType holder scope code type → Denotes holder scope code type

namespace Denotes

variable {holder : String} {scope : Scope} {code : Code} {type : ValueType}

theorem exists_texture (denotes : Denotes holder scope code .texture) :
    ∃ name ∈ scope.textures, code = .texture name := by
  cases denotes with
  | texture declared => exact ⟨_, declared, rfl⟩
  | number numeric _ => cases numeric

theorem hasType (denotes : Denotes holder scope code type)
    (numeric : TypeSet.numeric.contains type = true) : HasType holder scope code type := by
  cases denotes with
  | texture _ => cases numeric
  | number _ typed => exact typed

end Denotes

structure Writable (exprs : ExprList) : Prop where
  ordered : exprs.OrderedFrom 0
  wellTyped : ∀ (id : ExprId) (expr : Expr), exprs[id]? = some expr →
    exprs.WellTyped expr.kind expr.type
  expressible : ∀ (id : ExprId) (expr : Expr), exprs[id]? = some expr →
    exprs.Expressible expr.kind expr.type

variable {holder : String} {settings : TargetSettings} {exprs : ExprList} {scope : Scope}
  {id : ExprId} {expr : Expr} {type : ValueType}

theorem lt_of_mem_demanded (ordered : exprs.OrderedFrom 0) (found : exprs[id]? = some expr)
    {operand : ExprId} (member : operand ∈ demanded exprs expr) : operand < id := by
  have below : ∀ {id : ExprId} {expr : Expr}, exprs[id]? = some expr →
      ∀ operand ∈ expr.kind.operands, operand < id := by
    intro id expr found
    exact ordered id _ _ (Nat.zero_le id) (ExprList.holds_iff.2 ⟨expr, found, rfl, rfl⟩)
  have operands := below found
  unfold demanded at member
  split at member
  · rename_i aggregate index kind
    have early : aggregate < id := operands aggregate (by simp [kind, ExprKind.operands])
    split at member
    · rename_i function outputs _ _ call
      have listed := List.mem_of_getElem? (Option.mem_toList.1 member)
      exact Nat.lt_trans (below call operand listed) early
    · cases List.mem_singleton.1 member
      exact early
  · exact operands operand member

theorem numeric_of_operandTypes {op : MathOp} (allowed : op.operandTypes.contains type = true) :
    TypeSet.numeric.contains type = true := by
  cases op <;> first | exact allowed | exact numeric_of_vectors allowed

theorem mem_or_eq_of_resultType {op : MathOp} {types : List ValueType}
    (combined : op.resultType types = .ok type) : type ∈ types ∨ type = .scalar := by
  have widened : ∀ {left right result : ValueType}, op.widen left right = .ok result →
      result = left ∨ result = right := by
    intro left right result widened
    unfold MathOp.widen at widened
    grind
  unfold MathOp.resultType at combined
  split at combined
  · grind
  · grind
  · rcases widened combined with rfl | rfl <;> simp
  · cases combined
    simp
  · cases combined
    simp

theorem numeric_of_resultType {op : MathOp} {operands : List ExprId} {types : List ValueType}
    (typed : List.Forall₂ exprs.HasType operands types) (combined : op.resultType types = .ok type)
    (expressible : exprs.Expressible (.math op operands) (some type)) :
    TypeSet.numeric.contains type = true := by
  rcases mem_or_eq_of_resultType combined with member | rfl
  · obtain ⟨operand, listed, hasType⟩ := exists_related_of_mem typed.flip member
    exact numeric_of_operandTypes (expressible.2 operand listed type hasType)
  · rfl

theorem map_operandType {operands : List ExprId} {types : List ValueType}
    (typed : List.Forall₂ exprs.HasType operands types) (missing : ValueType) :
    operands.map (operandType exprs missing) = types := by
  rw [← List.map_id types, map_eq_map_iff_forall₂]
  exact typed.imp fun _ _ hasType => operandType_eq hasType missing

theorem hasType_math {op : MathOp} {operands : List ExprId} {types : List ValueType}
    {operand : ExprId → Code} (typed : List.Forall₂ exprs.HasType operands types)
    (combined : op.resultType types = .ok type)
    (expressible : exprs.Expressible (.math op operands) (some type))
    (denotes : ∀ id ∈ operands, ∀ found, exprs.HasType id found →
      Denotes holder scope (operand id) found) :
    HasType holder scope
      (.math op (operands.map fun id => (operand id, operandType exprs .scalar id)) type) type := by
  obtain ⟨counted, allowed⟩ := expressible
  apply HasType.math
  · intro pair member
    obtain ⟨id, listed, rfl⟩ := List.mem_map.1 member
    obtain ⟨found, _, hasType⟩ := exists_related_of_mem typed listed
    simp only [operandType_eq hasType]
    exact (denotes id listed found hasType).hasType
      (numeric_of_operandTypes (allowed id listed found hasType))
  · rw [List.length_map]
    exact counted
  · intro pair member
    obtain ⟨id, listed, rfl⟩ := List.mem_map.1 member
    obtain ⟨found, _, hasType⟩ := exists_related_of_mem typed listed
    simp only [operandType_eq hasType]
    exact allowed id listed found hasType
  · rw [List.map_map]
    exact (congrArg op.resultType (map_operandType typed .scalar)).trans combined

/-- The code of an expression has its type, if that of the operands has theirs. -/
theorem denotes_kindCode {operand : ExprId → Code} (hasType : expr.type = some type)
    (rules : exprs.WellTyped expr.kind expr.type)
    (expressible : exprs.Expressible expr.kind expr.type) (declared : scope.Declares expr)
    (denotes : ∀ id ∈ demanded exprs expr, ∀ found, exprs.HasType id found →
      Denotes settings.uniformBinding scope (operand id) found) :
    Denotes settings.uniformBinding scope (kindCode settings exprs operand expr) type := by
  obtain ⟨kind, exprType, useCount⟩ := expr
  subst hasType
  cases rules with
  | @literal value =>
      have numeric : TypeSet.numeric.contains value.type = true := by cases value <;> rfl
      exact .number numeric (.literal expressible)
  | @uniform value name type =>
      have different : type ≠ .texture := fun same => expressible (congrArg some same)
      exact .number (numeric_of_ne_texture different) (.uniform (declared.uniform name type rfl))
  | texture => exact .texture (declared.texture _ rfl)
  | @sample image coordinate level imageType coordinateType levelType =>
      obtain ⟨name, listed, isTexture⟩ :=
        (denotes image List.mem_cons_self _ imageType).exists_texture
      have typedCoordinate :=
        (denotes coordinate (List.mem_cons_of_mem _ List.mem_cons_self) _
          coordinateType).hasType rfl
      simp only [kindCode, isTexture]
      cases level with
      | none => exact .number rfl (.sample listed typedCoordinate)
      | some level =>
          have typedLevel := (denotes level (by simp [demanded, ExprKind.operands]) _
            (levelType level rfl)).hasType rfl
          exact .number rfl (.sampleLevel listed typedCoordinate typedLevel)
  | @swizzle source components _ sourceType lanes width =>
      have typedSource := (denotes source List.mem_cons_self _ sourceType).hasType rfl
      simp only [kindCode, operandType_eq sourceType]
      apply Denotes.number (numeric_of_lanes width)
      apply HasType.swizzle typedSource rfl _ width
      intro lane _
      cases lane <;> decide
  | @math op operands types _ operandTypes combined =>
      exact .number (numeric_of_resultType operandTypes combined expressible)
        (hasType_math operandTypes combined expressible denotes)
  | @result aggregate index function outputs output _ calls atIndex outputType =>
      obtain ⟨⟨_, _, _⟩, found, rfl, rfl⟩ := ExprList.holds_iff.1 calls
      have listed : output ∈ demanded exprs ⟨.result aggregate index, some type, useCount⟩ := by
        simp [demanded, found, atIndex]
      simpa [kindCode, found, atIndex] using denotes output listed _ outputType

theorem denotes_valueOf (writable : Writable exprs) (found : exprs[id]? = some expr)
    (hasType : expr.type = some type) (declared : scope.Declares expr)
    (operands : ∀ operand ∈ demanded exprs expr, operand < id → ∀ found,
      exprs.HasType operand found →
      Denotes settings.uniformBinding scope (codeOf settings exprs operand) found) :
    Denotes settings.uniformBinding scope (valueOf settings exprs id expr) type := by
  apply denotes_kindCode hasType (writable.wellTyped id expr found)
    (writable.expressible id expr found) declared
  intro operand member operandType typed
  have below := lt_of_mem_demanded writable.ordered found member
  rw [if_pos below]
  exact operands operand member below operandType typed

theorem numeric_of_isShared (writable : Writable exprs) (found : exprs[id]? = some expr)
    (hasType : expr.type = some type) (chosen : isShared settings expr = true) :
    TypeSet.numeric.contains type = true := by
  have rules := writable.wellTyped id expr found
  have expressible := writable.expressible id expr found
  obtain ⟨kind, exprType, useCount⟩ := expr
  subst hasType
  cases rules with
  | sample _ _ _ => rfl
  | math typed combined => exact numeric_of_resultType typed combined expressible
  | _ => simp [isShared, Expr.isComposite] at chosen

def Scope.Typed (exprs : ExprList) (scope : Scope) : Prop :=
  ∀ (id : ExprId) (expr : Expr) (type : ValueType), localName id ∈ scope.names →
    exprs[id]? = some expr → expr.type = some type →
    ∃ statement ∈ scope.statements, statement.name = localName id ∧ statement.type = type

/-- The code of an expression has its type where all that it refers to is in scope. -/
theorem Ready.denotes (writable : Writable exprs) (typed : scope.Typed exprs)
    (ready : Ready settings exprs scope id) :
    ∀ type, exprs.HasType id type →
      Denotes settings.uniformBinding scope (codeOf settings exprs id) type := by
  induction ready with
  | missing absent =>
      rintro type ⟨kind, held⟩
      obtain ⟨expr, found, _⟩ := ExprList.holds_iff.1 held
      cases absent.symm.trans found
  | @present id expr found bound declared operands induction =>
      rintro type ⟨kind, held⟩
      obtain ⟨other, foundToo, _, hasType⟩ := ExprList.holds_iff.1 held
      cases found.symm.trans foundToo
      rw [codeOf_of_some found]
      split
      · rename_i chosen
        obtain ⟨statement, listed, named, rfl⟩ := typed id expr type (bound chosen) found hasType
        rw [← named]
        exact .number (numeric_of_isShared writable found hasType chosen) (.shared listed)
      · exact denotes_valueOf writable found hasType declared induction

namespace Lets

variable {uniforms : Parameters} {textures : List String} {ids : List ExprId}
  {statements : List Statement}

theorem scopeTyped (lets : Lets settings exprs uniforms textures ids statements) :
    Scope.Typed exprs ⟨uniforms, textures, statements⟩ := by
  intro id expr type named found hasType
  obtain ⟨statement, listed, same⟩ := List.mem_map.1 named
  obtain ⟨before, after, split⟩ := List.append_of_mem listed
  obtain ⟨_, other, otherExpr, otherType, _, foundToo, hasOther, _, _, rfl⟩ :=
    lets.exists_prepared split
  obtain rfl := localName_inj same
  cases found.symm.trans foundToo
  exact ⟨_, listed, rfl, Option.some.inj (hasOther.symm.trans hasType)⟩

/-- The value of a local has its type, in the scope of the locals before it. -/
theorem hasType (lets : Lets settings exprs uniforms textures ids statements)
    (writable : Writable exprs) {before after : List Statement} {statement : Statement}
    (split : statements = before ++ statement :: after) :
    HasType settings.uniformBinding ⟨uniforms, textures, before⟩ statement.value
      statement.type := by
  obtain ⟨_, id, expr, type, earlier, found, hasType, chosen, prepared, rfl⟩ :=
    lets.exists_prepared split
  have denotes : Denotes settings.uniformBinding ⟨uniforms, textures, before⟩
      (valueOf settings exprs id expr) type := by
    apply denotes_valueOf writable found hasType prepared.declared
    intro operand member below
    exact (prepared.operands operand member below).denotes writable earlier.scopeTyped
  exact denotes.hasType (numeric_of_isShared writable found hasType chosen)

end Lets

end MaterialGraph.Wgsl
