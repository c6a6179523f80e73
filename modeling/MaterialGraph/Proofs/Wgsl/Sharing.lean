import Mathlib.Data.List.Induction
import MaterialGraph.Proofs.Expr.Parameters
import MaterialGraph.Proofs.Lists
import MaterialGraph.Proofs.Wgsl.Code
import MaterialGraph.Wgsl.Module

/-!
Sharing. What emission returns for an expression does not depend on what was emitted before: it is
the name of a local if the expression is shared, and code by its kind otherwise. The locals that
are bound on the way stand before what uses them. Putting their values in their places, the first
one first, gives the code that is emitted when nothing is shared.
-/

set_option autoImplicit false

namespace MaterialGraph.Wgsl

/-- What code may refer to: uniforms, textures, and locals bound earlier in the function. -/
structure Scope where
  uniforms : Parameters
  textures : List String
  statements : List Statement

namespace Scope

def names (scope : Scope) : List String := scope.statements.map Statement.name

structure Declares (scope : Scope) (expr : Expr) : Prop where
  uniform : ∀ name type, expr.parameter? = some (name, type) →
    scope.uniforms.find? name = some type
  texture : ∀ name, expr.kind = .texture name → name ∈ scope.textures

structure Extends (old new : Scope) : Prop where
  uniforms : old.uniforms.Within new.uniforms
  textures : old.textures ⊆ new.textures
  statements : old.statements <+: new.statements

namespace Extends

theorem refl (scope : Scope) : scope.Extends scope :=
  ⟨.refl _, List.Subset.refl _, List.prefix_rfl⟩

theorem trans {first middle last : Scope} (early : first.Extends middle)
    (late : middle.Extends last) : first.Extends last :=
  ⟨early.uniforms.trans late.uniforms, List.Subset.trans early.textures late.textures,
    early.statements.trans late.statements⟩

variable {old new : Scope}

theorem names (grown : old.Extends new) : old.names ⊆ new.names :=
  List.map_subset _ grown.statements.subset

theorem declares (grown : old.Extends new) {expr : Expr} (declares : old.Declares expr) :
    new.Declares expr :=
  ⟨fun name type named => grown.uniforms name type (declares.uniform name type named),
    fun name named => grown.textures (declares.texture name named)⟩

end Extends

end Scope

theorem localName_inj {left right : ExprId} (same : localName left = localName right) :
    left = right := by
  unfold localName at same
  have letters := congrArg String.toList same
  simp only [String.toList_append, List.append_cancel_left_eq] at letters
  have numbers := congrArg (fun digits => Nat.ofDigitChars 10 digits 0) letters
  simpa [Nat.toString_eq_ofList_toDigits] using numbers

section Code

variable (settings : TargetSettings) (exprs : ExprList)

def isShared (expr : Expr) : Bool :=
  expr.type.isSome && expr.isComposite && decide (settings.shareThreshold.toNat < expr.uses)

/-- The operands that are emitted with an expression; a result needs one output of its call. -/
def demanded (expr : Expr) : List ExprId :=
  match expr.kind with
  | .result aggregate index =>
      match exprs[aggregate]? with
      | some ⟨.call _ outputs, _, _⟩ => outputs[index]?.toList
      | _ => [aggregate]
  | kind => kind.operands

def kindCode (operand : ExprId → Code) (expr : Expr) : Code :=
  match expr.kind with
  | .constant value _ =>
      match expr.parameter? with
      | some (name, _) => .uniform settings.uniformBinding name
      | none => .literal value
  | .texture name => .texture name
  | .sample image coordinate level =>
      .sample (operand image) (operand coordinate) (level.map operand)
  | .swizzle source components =>
      (operand source).swizzle (operandType exprs .vec4 source) components
  | .math op operands =>
      .math op (operands.map fun id => (operand id, operandType exprs .scalar id))
        (expr.type.getD .scalar)
  | .call _ outputs => (outputs.map operand).head?.getD .nothing
  | .result aggregate index =>
      match exprs[aggregate]? with
      | some ⟨.call _ outputs, _, _⟩ =>
          match outputs[index]? with
          | some output => operand output
          | none => .nothing
      | _ => operand aggregate

/-- The code of an expression where it is used. -/
def codeOf (id : ExprId) : Code :=
  match exprs[id]? with
  | none => .nothing
  | some expr =>
      if isShared settings expr then .shared (localName id)
      else
        kindCode settings exprs (fun operand => if operand < id then codeOf operand else .nothing)
          expr
termination_by id

/-- The value of an expression: its code, or that of its local. -/
def valueOf (id : ExprId) (expr : Expr) : Code :=
  kindCode settings exprs
    (fun operand => if operand < id then codeOf settings exprs operand else .nothing) expr

end Code

section Pure

variable {settings : TargetSettings} {exprs : ExprList}

theorem codeOf_of_none {id : ExprId} (absent : exprs[id]? = none) :
    codeOf settings exprs id = .nothing := by
  rw [codeOf, absent]

theorem codeOf_of_some {id : ExprId} {expr : Expr} (found : exprs[id]? = some expr) :
    codeOf settings exprs id =
      if isShared settings expr then .shared (localName id)
      else valueOf settings exprs id expr := by
  rw [codeOf, found]
  rfl

/-- Replacing locals in the code of an expression is replacing them in that of its operands. -/
theorem expand_kindCode (bound : String → Code) (operand : ExprId → Code) (expr : Expr) :
    (kindCode settings exprs operand expr).expand bound =
      kindCode settings exprs (fun id => (operand id).expand bound) expr := by
  obtain ⟨kind, type, useCount⟩ := expr
  cases kind with
  | constant value parameter =>
      cases parameter <;> simp [kindCode, Expr.parameter?]
  | texture name => simp [kindCode]
  | sample image coordinate level => cases level <;> simp [kindCode]
  | swizzle source components => simp [kindCode]
  | math op operands => simp [kindCode, Function.comp_def]
  | call function outputs => cases outputs <;> simp [kindCode, Code.nothing]
  | result aggregate index =>
      simp only [kindCode]
      split
      · split
        · rfl
        · simp [Code.nothing]
      · rfl

theorem kindCode_congr {left right : ExprId → Code} {expr : Expr}
    (same : ∀ id ∈ demanded exprs expr, left id = right id) :
    kindCode settings exprs left expr = kindCode settings exprs right expr := by
  obtain ⟨kind, type, useCount⟩ := expr
  cases kind with
  | constant value parameter => rfl
  | texture name => rfl
  | sample image coordinate level =>
      cases level <;> simp_all [kindCode, demanded, ExprKind.operands]
  | swizzle source components => simp_all [kindCode, demanded, ExprKind.operands]
  | math op operands =>
      have listed : (operands.map fun id => (left id, operandType exprs .scalar id)) =
          operands.map fun id => (right id, operandType exprs .scalar id) := by
        apply List.map_congr_left
        intro id member
        rw [same id member]
      simp only [kindCode, listed]
  | call function outputs =>
      have listed : outputs.map left = outputs.map right := List.map_congr_left same
      simp only [kindCode, listed]
  | result aggregate index =>
      cases found : exprs[aggregate]? with
      | none => simpa [kindCode, demanded, found] using same
      | some called =>
          obtain ⟨calledKind, calledType, calledCount⟩ := called
          cases calledKind with
          | call function outputs =>
              simp only [kindCode, demanded, found] at same ⊢
              cases atIndex : outputs[index]? with
              | none => rfl
              | some output => exact same output (by simp [atIndex])
          | _ => simpa [kindCode, demanded, found] using same

structure Scope.Grants (settings : TargetSettings) (scope : Scope) (holds : Code → Prop) :
    Prop where
  parts : Code.Compositional holds
  uniform : ∀ name, holds (.uniform settings.uniformBinding name)
  texture : ∀ name ∈ scope.textures, holds (.texture name)
  shared : ∀ name ∈ scope.names, holds (.shared name)

/-- The code of an expression is made of what it reads and the operands that are emitted with it. -/
theorem Scope.Grants.kindCode {scope : Scope} {holds : Code → Prop}
    (grants : scope.Grants settings holds) {expr : Expr} (declared : scope.Declares expr)
    {operand : ExprId → Code} (operands : ∀ id ∈ demanded exprs expr, holds (operand id)) :
    holds (kindCode settings exprs operand expr) := by
  obtain ⟨kind, type, useCount⟩ := expr
  cases kind with
  | constant value parameter =>
      cases parameter with
      | none => exact grants.parts.literal value
      | some name => exact grants.uniform name
  | texture name => exact grants.texture name (declared.texture name rfl)
  | sample image coordinate level =>
      refine grants.parts.sample (operands image (by simp [demanded, ExprKind.operands]))
        (operands coordinate (by simp [demanded, ExprKind.operands])) ?_
      intro part given
      obtain ⟨id, rfl, rfl⟩ := Option.map_eq_some_iff.1 given
      exact operands id (by simp [demanded, ExprKind.operands])
  | swizzle source components =>
      exact grants.parts.swizzle (operands source List.mem_cons_self) _ components
  | math op ids =>
      apply grants.parts.math
      intro part member
      obtain ⟨id, listed, rfl⟩ := List.mem_map.1 member
      exact operands id listed
  | call function outputs =>
      cases outputs with
      | nil => exact grants.parts.nothing
      | cons first rest => exact operands first List.mem_cons_self
  | result aggregate index =>
      cases found : exprs[aggregate]? with
      | none =>
          simp only [Wgsl.kindCode, demanded, found] at operands ⊢
          exact operands aggregate List.mem_cons_self
      | some called =>
          obtain ⟨calledKind, calledType, calledCount⟩ := called
          cases calledKind with
          | call function outputs =>
              simp only [Wgsl.kindCode, demanded, found] at operands ⊢
              cases atIndex : outputs[index]? with
              | none => exact grants.parts.nothing
              | some output => exact operands output (by simp [atIndex])
          | _ =>
              simp only [Wgsl.kindCode, demanded, found] at operands ⊢
              exact operands aggregate List.mem_cons_self

inductive Ready (settings : TargetSettings) (exprs : ExprList) (scope : Scope) : ExprId → Prop
  | missing {id : ExprId} (absent : exprs[id]? = none) : Ready settings exprs scope id
  | present {id : ExprId} {expr : Expr} (found : exprs[id]? = some expr)
      (bound : isShared settings expr = true → localName id ∈ scope.names)
      (declared : scope.Declares expr)
      (operands : ∀ operand ∈ demanded exprs expr, operand < id →
        Ready settings exprs scope operand) : Ready settings exprs scope id

theorem Ready.extend {old new : Scope} (grown : old.Extends new) {id : ExprId}
    (ready : Ready settings exprs old id) : Ready settings exprs new id := by
  induction ready with
  | missing absent => exact .missing absent
  | present found bound declared operands induction =>
      exact .present found (fun isShared => grown.names (bound isShared)) (grown.declares declared)
        induction

structure Prepared (settings : TargetSettings) (exprs : ExprList) (scope : Scope) (id : ExprId)
    (expr : Expr) : Prop where
  declared : scope.Declares expr
  operands : ∀ operand ∈ demanded exprs expr, operand < id → Ready settings exprs scope operand

theorem Prepared.extend {old new : Scope} (grown : old.Extends new) {id : ExprId} {expr : Expr}
    (prepared : Prepared settings exprs old id expr) : Prepared settings exprs new id expr :=
  ⟨grown.declares prepared.declared,
    fun operand member below => (prepared.operands operand member below).extend grown⟩

/-- Locals that were bound one after another, each with its value prepared by those before. -/
inductive Lets (settings : TargetSettings) (exprs : ExprList) (uniforms : Parameters)
    (textures : List String) : List ExprId → List Statement → Prop
  | nil : Lets settings exprs uniforms textures [] []
  | snoc {ids : List ExprId} {statements : List Statement} {id : ExprId} {expr : Expr}
      {type : ValueType} (earlier : Lets settings exprs uniforms textures ids statements)
      (fresh : id ∉ ids) (found : exprs[id]? = some expr) (typed : expr.type = some type)
      (chosen : isShared settings expr = true)
      (prepared : Prepared settings exprs ⟨uniforms, textures, statements⟩ id expr) :
      Lets settings exprs uniforms textures (ids ++ [id])
        (statements ++ [⟨localName id, type, valueOf settings exprs id expr⟩])

namespace Lets

variable {uniforms : Parameters} {textures : List String} {ids : List ExprId}
  {statements : List Statement}

theorem declare {moreUniforms : Parameters} {moreTextures : List String}
    (lets : Lets settings exprs uniforms textures ids statements)
    (keeps : uniforms.Within moreUniforms) (longer : textures ⊆ moreTextures) :
    Lets settings exprs moreUniforms moreTextures ids statements := by
  induction lets with
  | nil => exact .nil
  | snoc earlier fresh found typed chosen prepared induction =>
      refine .snoc induction fresh found typed chosen (prepared.extend ?_)
      exact ⟨keeps, longer, List.prefix_rfl⟩

theorem names_eq (lets : Lets settings exprs uniforms textures ids statements) :
    statements.map Statement.name = ids.map localName := by
  induction lets with
  | nil => rfl
  | snoc earlier fresh found typed chosen prepared induction => simp [induction]

theorem nodup (lets : Lets settings exprs uniforms textures ids statements) :
    (statements.map Statement.name).Nodup := by
  induction lets with
  | nil => exact List.nodup_nil
  | snoc earlier fresh found typed chosen prepared induction =>
      rw [List.map_append, List.map_singleton, List.nodup_append]
      refine ⟨induction, List.nodup_singleton _, ?_⟩
      intro name old other new same
      subst same
      rw [earlier.names_eq] at old
      obtain ⟨id, member, named⟩ := List.mem_map.1 old
      rw [List.mem_singleton] at new
      exact fresh (localName_inj (named.trans new) ▸ member)

theorem ready (lets : Lets settings exprs uniforms textures ids statements) {id : ExprId}
    (member : id ∈ ids) :
    (∃ expr, exprs[id]? = some expr ∧ isShared settings expr = true) ∧
      Ready settings exprs ⟨uniforms, textures, statements⟩ id := by
  induction lets with
  | nil => cases member
  | @snoc ids statements last expr type earlier fresh found typed chosen prepared induction =>
      have grown : Scope.Extends ⟨uniforms, textures, statements⟩ ⟨uniforms, textures,
          statements ++ [⟨localName last, type, valueOf settings exprs last expr⟩]⟩ :=
        ⟨.refl _, List.Subset.refl _, List.prefix_append _ _⟩
      rcases List.mem_append.1 member with old | new
      · exact ⟨(induction old).1, (induction old).2.extend grown⟩
      · cases List.mem_singleton.1 new
        have later := prepared.extend grown
        refine ⟨⟨expr, found, chosen⟩, .present found ?_ later.declared later.operands⟩
        intro _
        simp [Scope.names]

theorem exists_prepared (lets : Lets settings exprs uniforms textures ids statements)
    {before after : List Statement} {statement : Statement}
    (split : statements = before ++ statement :: after) :
    ∃ earlier id expr type, Lets settings exprs uniforms textures earlier before ∧
      exprs[id]? = some expr ∧ expr.type = some type ∧ isShared settings expr = true ∧
      Prepared settings exprs ⟨uniforms, textures, before⟩ id expr ∧
      statement = ⟨localName id, type, valueOf settings exprs id expr⟩ := by
  induction lets generalizing after with
  | nil => simp at split
  | @snoc ids statements id expr type earlier fresh found typed chosen prepared induction =>
      rcases List.eq_nil_or_concat after with rfl | ⟨more, last, rfl⟩
      · obtain ⟨rfl, same⟩ := List.append_inj' split rfl
        exact ⟨ids, id, expr, type, earlier, found, typed, chosen, prepared,
          (List.cons.inj same).1.symm⟩
      · rw [List.concat_eq_append, ← List.cons_append, ← List.append_assoc] at split
        exact induction (List.append_inj' split rfl).1

end Lets

section Grants

variable {scope : Scope} {holds : Code → Prop}

theorem Scope.Grants.valueOf (grants : scope.Grants settings holds) {id : ExprId} {expr : Expr}
    (declared : scope.Declares expr)
    (operands : ∀ operand ∈ demanded exprs expr, operand < id →
      holds (codeOf settings exprs operand)) : holds (valueOf settings exprs id expr) := by
  apply grants.kindCode declared
  intro operand demands
  split
  · rename_i below
    exact operands operand demands below
  · exact grants.parts.nothing

theorem Scope.Grants.codeOf (grants : scope.Grants settings holds) {id : ExprId}
    (ready : Ready settings exprs scope id) : holds (codeOf settings exprs id) := by
  induction ready with
  | missing absent =>
      rw [codeOf_of_none absent]
      exact grants.parts.nothing
  | present found bound declared operands induction =>
      rw [codeOf_of_some found]
      split
      · rename_i chosen
        exact grants.shared _ (bound chosen)
      · exact grants.valueOf declared induction

theorem Lets.holds_value {uniforms : Parameters} {textures : List String} {ids : List ExprId}
    {statements : List Statement} (lets : Lets settings exprs uniforms textures ids statements)
    {before after : List Statement} {statement : Statement}
    (split : statements = before ++ statement :: after)
    (grants : Scope.Grants settings ⟨uniforms, textures, before⟩ holds) :
    holds statement.value := by
  obtain ⟨_, id, expr, type, _, _, _, _, prepared, rfl⟩ := lets.exists_prepared split
  exact grants.valueOf prepared.declared fun operand member below =>
    grants.codeOf (prepared.operands operand member below)

theorem grants_locals (settings : TargetSettings) (scope : Scope) :
    scope.Grants settings fun code => ∀ name ∈ code.locals, name ∈ scope.names where
  parts := Code.compositional_locals (· ∈ scope.names)
  uniform := by simp
  texture := by simp
  shared := by simp

end Grants

end Pure

/-- The target with sharing off: no counter exceeds the threshold. -/
def unshared (settings : TargetSettings) : TargetSettings :=
  { settings with shareThreshold := 0xFFFFFFFF }

theorem isShared_unshared (settings : TargetSettings) (expr : Expr) :
    isShared (unshared settings) expr = false := by
  have bound := expr.useCount.toNat_lt
  have off : ¬(unshared settings).shareThreshold.toNat < expr.uses := by
    simp only [unshared, Expr.uses, UInt32.reduceToNat]
    omega
  simp [isShared, off]

def standIn (table : Table String Code) (name : String) : Code :=
  (table.find? name).getD (.shared name)

/-- The values of locals, with those of earlier locals in the places of their names. -/
def expansions (statements : List Statement) : Table String Code :=
  statements.foldl
    (fun table statement => table ++ [(statement.name, statement.value.expand (standIn table))]) []

theorem expansions_append (statements : List Statement) (statement : Statement) :
    expansions (statements ++ [statement]) = expansions statements ++
      [(statement.name, statement.value.expand (standIn (expansions statements)))] := by
  simp [expansions]

theorem keys_expansions (statements : List Statement) :
    (expansions statements).keys = statements.map Statement.name := by
  induction statements using List.reverseRecOn with
  | nil => rfl
  | append_singleton statements statement induction =>
      rw [expansions_append, List.map_append, ← induction]
      simp [Table.keys]

section Expansion

variable {settings : TargetSettings} {exprs : ExprList}

theorem codeOf_unshared {id : ExprId} {expr : Expr} (found : exprs[id]? = some expr) :
    codeOf (unshared settings) exprs id = valueOf (unshared settings) exprs id expr := by
  rw [codeOf_of_some found, isShared_unshared]
  rfl

/-- Replacing locals in the value of an expression gives its code without sharing, if it does so
for the operands. -/
theorem expand_valueOf {bound : String → Code} {id : ExprId} {expr : Expr}
    (operands : ∀ operand ∈ demanded exprs expr, operand < id →
      (codeOf settings exprs operand).expand bound = codeOf (unshared settings) exprs operand) :
    (valueOf settings exprs id expr).expand bound = valueOf (unshared settings) exprs id expr := by
  unfold valueOf
  rw [expand_kindCode]
  apply kindCode_congr
  intro operand member
  split
  · rename_i below
    exact operands operand member below
  · simp [Code.nothing]

theorem Ready.expand {scope : Scope} {id : ExprId} (ready : Ready settings exprs scope id)
    {bound : String → Code} (known : ∀ id, localName id ∈ scope.names →
      bound (localName id) = codeOf (unshared settings) exprs id) :
    (codeOf settings exprs id).expand bound = codeOf (unshared settings) exprs id := by
  induction ready with
  | missing absent =>
      rw [codeOf_of_none absent, codeOf_of_none absent]
      simp [Code.nothing]
  | @present id expr found isBound declared operands induction =>
      rw [codeOf_of_some found]
      split
      · rename_i chosen
        simpa using known id (isBound chosen)
      · rw [codeOf_unshared found]
        exact expand_valueOf induction

/-- The expansions of the locals are the codes of their expressions without sharing. -/
theorem Lets.expansion {uniforms : Parameters} {textures : List String} {ids : List ExprId}
    {statements : List Statement} (lets : Lets settings exprs uniforms textures ids statements)
    {id : ExprId} (member : localName id ∈ statements.map Statement.name) :
    (expansions statements).find? (localName id) = some (codeOf (unshared settings) exprs id) := by
  induction lets generalizing id with
  | nil => simp at member
  | @snoc ids statements last expr type earlier fresh found typed chosen prepared induction =>
      rw [expansions_append, Table.find?_append]
      by_cases old : localName id ∈ statements.map Statement.name
      · rw [induction old]
        rfl
      · have absent : (expansions statements).find? (localName id) = none := by
          rw [Table.find?_eq_none_iff, keys_expansions]
          exact old
        rw [List.map_append, List.mem_append] at member
        have same : id = last := by
          apply localName_inj
          simpa using member.resolve_left old
        subst same
        have known : ∀ other, localName other ∈ statements.map Statement.name →
            standIn (expansions statements) (localName other) =
              codeOf (unshared settings) exprs other := by
          intro other bound
          rw [standIn, induction bound, Option.getD_some]
        have value : (valueOf settings exprs id expr).expand (standIn (expansions statements)) =
            valueOf (unshared settings) exprs id expr := by
          apply expand_valueOf
          intro operand listed below
          exact (prepared.operands operand listed below).expand known
        rw [absent, codeOf_unshared found, Option.none_or, value]
        simp [Table.find?]

end Expansion

end MaterialGraph.Wgsl
