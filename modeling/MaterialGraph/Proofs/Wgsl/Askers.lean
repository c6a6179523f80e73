import MaterialGraph.Proofs.Expr.Uses
import MaterialGraph.Proofs.Wgsl.Rendering

/-!
What asks for an expression. An operand is asked for by what holds it, and an output of a call by
the result that passes it on. Where whatever has no local is held once, and each output of a call
has one result, nothing that works on operands is rendered twice.
-/

set_option autoImplicit false

namespace MaterialGraph

def Expr.isPart (expr : Expr) : Bool :=
  match expr.kind with
  | .swizzle _ _ => true
  | .result _ _ => true
  | _ => false

namespace Wgsl

variable {settings : TargetSettings} {exprs : ExprList} {before : List ExprId}
  {id : ExprId} {expr : Expr}

def Ruled (exprs : ExprList) : Prop :=
  ∀ (id : ExprId) (expr : Expr), exprs[id]? = some expr → exprs.WellTyped expr.kind expr.type

theorem Ruled.not_call (ruled : Ruled exprs) {type : ValueType} (typed : exprs.HasType id type)
    (found : exprs[id]? = some expr) (function : String) (outputs : List ExprId) :
    expr.kind ≠ .call function outputs := by
  intro calls
  obtain ⟨kind, held⟩ := typed
  obtain ⟨_, foundToo, _, hasType⟩ := ExprList.holds_iff.1 held
  cases found.symm.trans foundToo
  rw [(ruled id expr found).type_eq_none_of_call calls] at hasType
  cases hasType

theorem Ruled.exists_type (ruled : Ruled exprs) (found : exprs[id]? = some expr)
    {operand : ExprId} (demands : operand ∈ demanded exprs expr) :
    ∃ type, exprs.HasType operand type := by
  have rules := ruled id expr found
  obtain ⟨kind, type, useCount⟩ := expr
  cases rules with
  | literal => cases demands
  | uniform => cases demands
  | texture => cases demands
  | @sample image coordinate level imageType coordinateType levelType =>
      rcases List.mem_cons.1 demands with rfl | later
      · exact ⟨_, imageType⟩
      · rcases List.mem_cons.1 later with rfl | last
        · exact ⟨_, coordinateType⟩
        · exact ⟨_, levelType operand (Option.mem_toList.1 last)⟩
  | swizzle sourceType =>
      cases List.mem_singleton.1 demands
      exact ⟨_, sourceType⟩
  | math operandTypes =>
      obtain ⟨type, _, typed⟩ := exists_related_of_mem operandTypes demands
      exact ⟨type, typed⟩
  | call outputTypes =>
      obtain ⟨type, _, typed⟩ := exists_related_of_mem outputTypes demands
      exact ⟨type, typed⟩
  | @result aggregate index function outputs output type calls atIndex outputType =>
      obtain ⟨⟨_, _, _⟩, foundCall, rfl, rfl⟩ := ExprList.holds_iff.1 calls
      simp only [demanded, foundCall, atIndex, Option.toList_some, List.mem_singleton] at demands
      exact ⟨type, demands ▸ outputType⟩

/-- What has a type and asks for something is a sample, an operation or a part. -/
theorem Ruled.worked (ruled : Ruled exprs) {type : ValueType} (typed : exprs.HasType id type)
    (found : exprs[id]? = some expr) {operand : ExprId} (demands : operand ∈ demanded exprs expr) :
    expr.isComposite = true ∨ expr.isPart = true := by
  have noCall := ruled.not_call typed found
  obtain ⟨kind, exprType, useCount⟩ := expr
  cases kind with
  | constant value parameter => cases demands
  | texture name => cases demands
  | call function outputs => exact absurd rfl (noCall function outputs)
  | sample image coordinate level => exact .inl rfl
  | math op operands => exact .inl rfl
  | swizzle source components => exact .inr rfl
  | result aggregate index => exact .inr rfl

/-- An expression asks for an operand that it holds, and the result of a call for an output that the
call holds. -/
inductive Asks (exprs : ExprList) (operand : ExprId) : (asker holder : ExprId) → Prop
  | itself {id : ExprId} {expr : Expr} (found : exprs[id]? = some expr)
      (noCall : ∀ function outputs, expr.kind ≠ .call function outputs)
      (direct : demanded exprs expr = expr.kind.operands) (held : operand ∈ expr.kind.operands) :
      Asks exprs operand id id
  | result {id aggregate : ExprId} {index : Nat} {type : Option ValueType} {function : String}
      {outputs : List ExprId} (isResult : exprs.Holds id (.result aggregate index) type)
      (calls : exprs.Holds aggregate (.call function outputs) none)
      (atIndex : outputs[index]? = some operand) : Asks exprs operand id aggregate

namespace Asks

variable {operand asker holder : ExprId}

theorem of_demanded (ruled : Ruled exprs) {type : ValueType} (typed : exprs.HasType id type)
    (found : exprs[id]? = some expr) (demands : operand ∈ demanded exprs expr) :
    ∃ holder, Asks exprs operand id holder := by
  have noCall := ruled.not_call typed found
  have rules := ruled id expr found
  obtain ⟨kind, exprType, useCount⟩ := expr
  cases rules with
  | @result aggregate index function outputs output type calls atIndex =>
      obtain ⟨⟨_, _, _⟩, foundCall, rfl, rfl⟩ := ExprList.holds_iff.1 calls
      simp only [demanded, foundCall, atIndex, Option.toList_some, List.mem_singleton] at demands
      have isResult := ExprList.holds_iff.2 ⟨_, found, rfl, rfl⟩
      exact ⟨aggregate, .result isResult calls (demands ▸ atIndex)⟩
  | _ => exact ⟨id, .itself found noCall rfl demands⟩

theorem held (asks : Asks exprs operand asker holder) :
    ∃ expr, exprs[holder]? = some expr ∧ operand ∈ expr.kind.operands := by
  cases asks with
  | itself found _ _ held => exact ⟨_, found, held⟩
  | result _ calls atIndex =>
      obtain ⟨expr, found, kind, _⟩ := ExprList.holds_iff.1 calls
      exact ⟨expr, found, kind ▸ List.mem_of_getElem? atIndex⟩

theorem held_count (asks : Asks exprs operand asker holder) : 0 < exprs.operands.count operand := by
  obtain ⟨expr, found, inside⟩ := asks.held
  exact List.count_pos_iff.2 (List.mem_flatMap.2 ⟨expr, List.mem_of_getElem? found, inside⟩)

theorem unique (few : exprs.operands.count operand ≤ 1)
    (distinct : exprs.DistinctResults) {other otherHolder : ExprId}
    (asks : Asks exprs operand asker holder) (asksToo : Asks exprs operand other otherHolder) :
    asker = other := by
  obtain ⟨expr, found, held⟩ := asks.held
  obtain ⟨otherExpr, foundOther, heldOther⟩ := asksToo.held
  obtain rfl := eq_of_count_flatMap_le_one few found held foundOther heldOther
  cases asks with
  | itself foundFirst noCall =>
      cases asksToo with
      | itself => rfl
      | result _ calls =>
          obtain ⟨_, foundCall, kind, _⟩ := ExprList.holds_iff.1 calls
          cases foundFirst.symm.trans foundCall
          exact absurd kind (noCall _ _)
  | result isResult calls atIndex =>
      cases asksToo with
      | itself foundSecond noCall =>
          obtain ⟨_, foundCall, kind, _⟩ := ExprList.holds_iff.1 calls
          cases foundSecond.symm.trans foundCall
          exact absurd kind (noCall _ _)
      | result isResultToo callsToo atIndexToo =>
          cases (calls.unique callsToo).1
          obtain ⟨callExpr, foundCall, kind, _⟩ := ExprList.holds_iff.1 calls
          have inCall := count_le_count_flatMap (fun expr : Expr => expr.kind.operands)
            (List.mem_of_getElem? foundCall) operand
          rw [kind] at inCall
          obtain rfl := eq_of_count_le_one (Nat.le_trans inCall few) atIndex atIndexToo
          exact distinct _ _ _ _ _ _ isResult isResultToo

theorem once (few : exprs.operands.count operand ≤ 1) (asks : Asks exprs operand asker holder) :
    (needs exprs asker).count operand ≤ 1 := by
  cases asks with
  | itself found _ direct _ =>
      rw [needs_of_some found, direct]
      exact Nat.le_trans (count_le_count_flatMap (fun expr : Expr => expr.kind.operands)
        (List.mem_of_getElem? found) operand) few
  | result isResult calls atIndex =>
      obtain ⟨⟨_, _, _⟩, found, rfl, rfl⟩ := ExprList.holds_iff.1 isResult
      obtain ⟨⟨_, _, _⟩, foundCall, rfl, rfl⟩ := ExprList.holds_iff.1 calls
      simp [needs_of_some found, demanded, foundCall, atIndex]

end Asks

namespace Tally

variable {asked rendered : List ExprId}

theorem exists_type (tally : Tally settings exprs before asked rendered) (ruled : Ruled exprs)
    (typed : ∀ id ∈ asked, ∃ type, exprs.HasType id type) (listed : id ∈ rendered)
    (found : exprs[id]? = some expr) : ∃ type, exprs.HasType id type := by
  have counted := tally.counted id expr found
  have occurs := List.count_pos_iff.2 listed
  have wanted : 0 < (asked ++ rendered.flatMap (needs exprs)).count id := by
    split at counted
    · split at counted <;> omega
    · omega
  rcases List.mem_append.1 (List.count_pos_iff.1 wanted) with first | inside
  · exact typed id first
  · obtain ⟨asker, _, wants⟩ := List.mem_flatMap.1 inside
    obtain ⟨askerExpr, atAsker, demands⟩ := exists_of_mem_needs wants
    exact ruled.exists_type atAsker demands

theorem exists_holder (tally : Tally settings exprs before asked rendered) (ruled : Ruled exprs)
    (typed : ∀ id ∈ asked, ∃ type, exprs.HasType id type) {asker : ExprId}
    (listed : asker ∈ rendered) (wants : id ∈ needs exprs asker) :
    ∃ holder, Asks exprs id asker holder := by
  obtain ⟨askerExpr, found, demands⟩ := exists_of_mem_needs wants
  obtain ⟨type, hasType⟩ := tally.exists_type ruled typed listed found
  exact Asks.of_demanded ruled hasType found demands

theorem count_needs_le_one (tally : Tally settings exprs before asked rendered)
    (ruled : Ruled exprs) (typed : ∀ id ∈ asked, ∃ type, exprs.HasType id type)
    (distinct : exprs.DistinctResults) (once : exprs.operands.count id ≤ 1)
    (askers : ∀ asker ∈ rendered, id ∈ needs exprs asker → rendered.count asker ≤ 1) :
    (rendered.flatMap (needs exprs)).count id ≤ 1 := by
  by_cases wanted : id ∈ rendered.flatMap (needs exprs)
  · obtain ⟨asker, listed, wants⟩ := List.mem_flatMap.1 wanted
    obtain ⟨_, asks⟩ := tally.exists_holder ruled typed listed wants
    refine count_flatMap_le_one ?_ (askers asker listed wants) (asks.once once)
    intro other listedToo wantsToo
    obtain ⟨_, asksToo⟩ := tally.exists_holder ruled typed listedToo wantsToo
    exact asksToo.unique once distinct asks
  · rw [List.count_eq_zero.2 wanted]
    exact Nat.zero_le 1

/-- Where each output of a call has one result, and each sample, operation or part has a local or is
held once, all these are rendered once at most. -/
theorem count_le_one (tally : Tally settings exprs [] asked rendered)
    (ordered : exprs.OrderedFrom 0) (ruled : Ruled exprs)
    (typed : ∀ id ∈ asked, ∃ type, exprs.HasType id type) (distinct : exprs.DistinctResults)
    (few : ∀ id expr, exprs[id]? = some expr → expr.isComposite = true ∨ expr.isPart = true →
      isShared settings expr = true ∨ exprs.operands.count id + asked.count id ≤ 1)
    (found : exprs[id]? = some expr) (worked : expr.isComposite = true ∨ expr.isPart = true) :
    rendered.count id ≤ 1 := by
  -- Everything that asks for an expression stands behind it.
  induction left : exprs.length - id using Nat.strongRecOn generalizing id expr with
  | _ left induction =>
      subst left
      have askers : ∀ asker ∈ rendered, id ∈ needs exprs asker → rendered.count asker ≤ 1 := by
        intro asker listed wants
        obtain ⟨askerExpr, foundAsker, demands⟩ := exists_of_mem_needs wants
        obtain ⟨type, hasType⟩ := tally.exists_type ruled typed listed foundAsker
        have behind := lt_of_mem_demanded ordered foundAsker demands
        have inside := (List.getElem?_eq_some_iff.1 foundAsker).1
        exact induction (exprs.length - asker)
          (Nat.sub_lt_sub_left (Nat.lt_trans behind inside) behind) foundAsker
          (ruled.worked hasType foundAsker demands) rfl
      have counted := tally.counted id expr found
      cases chosen : isShared settings expr with
      | true =>
          rw [chosen] at counted
          simp only [if_true, List.not_mem_nil, if_false] at counted
          omega
      | false =>
          rw [chosen] at counted
          simp only [Bool.false_eq_true, if_false, List.count_append] at counted
          have held := (few id expr found worked).resolve_left (by simp [chosen])
          have needed := tally.count_needs_le_one ruled typed distinct (by omega) askers
          have holder : 0 < (rendered.flatMap (needs exprs)).count id →
              0 < exprs.operands.count id := by
            intro occurs
            obtain ⟨asker, listed, wants⟩ := List.mem_flatMap.1 (List.count_pos_iff.1 occurs)
            obtain ⟨_, asks⟩ := tally.exists_holder ruled typed listed wants
            exact asks.held_count
          omega

end Tally

end Wgsl

end MaterialGraph
