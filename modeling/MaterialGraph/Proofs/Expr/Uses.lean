import MaterialGraph.Proofs.Expr.List

/-!
The counters of a list of expressions. Each expression that is pushed is counted at each of its
operands, so that a counter holds the number of operands in the list that are its expression, and
of whatever else counted a use. Counters have 32 bits and wrap.
-/

set_option autoImplicit false

namespace MaterialGraph.ExprList

def operands (list : ExprList) : List ExprId := list.flatMap fun expr => expr.kind.operands

/-- Every counter holds the number of operands, and of other holders, that are its expression. -/
def Counted (others : List ExprId) (list : ExprList) : Prop :=
  ∀ id expr, list[id]? = some expr →
    expr.useCount = UInt32.ofNat (list.operands.count id + others.count id)

def DistinctResults (list : ExprList) : Prop :=
  ∀ left right aggregate index type otherType, list.Holds left (.result aggregate index) type →
    list.Holds right (.result aggregate index) otherType → left = right

inductive Pushes : ExprList → ExprList → Prop
  | refl (list : ExprList) : Pushes list list
  | push {old list : ExprList} {kind : ExprKind} (type : Option ValueType) : Pushes old list →
      (∀ operand ∈ kind.operands, operand < list.length) → Pushes old (list.push kind type)

@[simp] theorem operands_addUse (list : ExprList) (id : ExprId) :
    (list.addUse id).operands = list.operands := by
  have through : ∀ list : ExprList,
      list.operands = list.contents.flatMap fun entry => entry.1.operands := by
    intro list
    rw [operands, contents, List.flatMap_map]
  rw [through, through, contents_addUse]

theorem operands_foldl_addUse (ids : List ExprId) (list : ExprList) :
    ExprList.operands (ids.foldl addUse list) = list.operands := by
  induction ids generalizing list with
  | nil => rfl
  | cons id rest induction => rw [List.foldl_cons, induction, operands_addUse]

theorem operands_push (list : ExprList) (kind : ExprKind) (type : Option ValueType) :
    (list.push kind type).operands = list.operands ++ kind.operands := by
  rw [push, ← operands_foldl_addUse kind.operands list]
  simp [operands]

theorem count_operands_eq_zero {list : ExprList} (ordered : list.OrderedFrom 0) {id : ExprId}
    (outside : list.length ≤ id) : list.operands.count id = 0 := by
  apply List.count_eq_zero.2
  intro member
  obtain ⟨expr, listed, operand⟩ := List.mem_flatMap.1 member
  obtain ⟨place, found⟩ := List.mem_iff_getElem?.1 listed
  have held : list.Holds place expr.kind expr.type := holds_iff.2 ⟨expr, found, rfl, rfl⟩
  have before := ordered place _ _ (Nat.zero_le place) held id operand
  exact Nat.not_le.2 (Nat.lt_trans before held.lt_length) outside

namespace Counted

variable {others : List ExprId} {list : ExprList}

theorem nil : Counted [] [] := by
  intro id expr found
  cases found

theorem addUse (counted : Counted others list) (id : ExprId) :
    Counted (id :: others) (list.addUse id) := by
  intro place expr found
  rw [operands_addUse]
  rw [ExprList.addUse, List.getElem?_modify] at found
  obtain ⟨old, foundOld, rfl⟩ := Option.map_eq_some_iff.1 found
  have before := counted place old foundOld
  by_cases here : id = place
  · subst here
    simp only [if_true, before, List.count_cons_self]
    rw [← Nat.add_assoc, UInt32.ofNat_add (_ + _)]
    rfl
  · simpa [here] using before

theorem foldl_addUse (counted : Counted others list) (ids : List ExprId) :
    Counted (ids.reverse ++ others) (ids.foldl ExprList.addUse list) := by
  induction ids generalizing others list with
  | nil => simpa using counted
  | cons id rest induction =>
      rw [List.foldl_cons, List.reverse_cons, List.append_assoc]
      exact induction (counted.addUse id)

theorem push (counted : Counted others list) (ordered : list.OrderedFrom 0)
    (outside : ∀ other ∈ others, other < list.length) {kind : ExprKind}
    (operands : ∀ operand ∈ kind.operands, operand < list.length) (type : Option ValueType) :
    Counted others (list.push kind type) := by
  intro place expr found
  rw [operands_push, List.count_append]
  unfold ExprList.push at found
  by_cases inside : place < list.length
  · rw [List.getElem?_append_left (by rwa [length_foldl_addUse])] at found
    have used := counted.foldl_addUse kind.operands place expr found
    rw [operands_foldl_addUse, List.count_append, List.count_reverse] at used
    rw [used, Nat.add_assoc]
  · have outer : ∀ {ids : List ExprId}, (∀ id ∈ ids, id < list.length) → ids.count place = 0 := by
      intro ids below
      exact List.count_eq_zero.2 fun member => inside (below place member)
    have unused := count_operands_eq_zero ordered (Nat.le_of_not_lt inside)
    rw [List.getElem?_append_right (by
      rw [length_foldl_addUse]
      exact Nat.le_of_not_lt inside)] at found
    have last := List.mem_of_getElem? found
    rw [List.mem_singleton.1 last, unused, outer operands, outer outside]
    rfl

/-- A counter that did not wrap is the number of its holders. -/
theorem uses_eq (counted : Counted others list) {id : ExprId} {expr : Expr}
    (found : list[id]? = some expr)
    (small : list.operands.count id + others.count id < UInt32.size) :
    expr.uses = list.operands.count id + others.count id := by
  rw [Expr.uses, counted id expr found]
  exact UInt32.toNat_ofNat_of_lt small

end Counted

namespace Pushes

variable {first middle last : ExprList}

theorem single {list : ExprList} {kind : ExprKind}
    (operands : ∀ operand ∈ kind.operands, operand < list.length) (type : Option ValueType) :
    Pushes list (list.push kind type) :=
  .push type (.refl list) operands

theorem trans (early : Pushes first middle) (late : Pushes middle last) : Pushes first last := by
  induction late with
  | refl => exact early
  | push type _ operands induction => exact .push type induction operands

theorem grown (pushes : Pushes first last) : first.Extends last := by
  induction pushes with
  | refl => exact .refl _
  | push type _ _ induction => exact induction.trans (extends_push _ _ _)

theorem ordered (pushes : Pushes first last) (before : first.OrderedFrom 0) :
    last.OrderedFrom 0 := by
  induction pushes with
  | refl => exact before
  | @push list kind type _ operands induction =>
      refine induction.extend (extends_push list kind type) ?_
      intro id otherKind otherType from_ held
      have inside := held.lt_length
      rw [length_push] at inside
      obtain rfl : id = list.length := Nat.le_antisymm (Nat.le_of_lt_succ inside) from_
      obtain ⟨rfl, _⟩ := (holds_push list kind type).unique held
      exact operands

theorem counted (pushes : Pushes first last) (before : first.OrderedFrom 0) {others : List ExprId}
    (outside : ∀ other ∈ others, other < first.length) (counted : Counted others first) :
    Counted others last := by
  induction pushes with
  | refl => exact counted
  | push type pushes operands induction =>
      apply induction.push (pushes.ordered before) _ operands
      exact fun other member =>
        Nat.lt_of_lt_of_le (outside other member) pushes.grown.length_le

end Pushes

end MaterialGraph.ExprList
