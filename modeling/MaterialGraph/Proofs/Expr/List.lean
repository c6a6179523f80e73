import MaterialGraph.Expr.Basic

/-!
Lists of expressions grow at their end, and an expression is found at its place from then on. Only
the number of its uses changes.
-/

set_option autoImplicit false

namespace MaterialGraph

namespace ExprList

def contents (list : ExprList) : List (ExprKind × Option ValueType) :=
  list.map fun expr => (expr.kind, expr.type)

def Holds (list : ExprList) (id : ExprId) (kind : ExprKind) (type : Option ValueType) : Prop :=
  list.contents[id]? = some (kind, type)

def Extends (old new : ExprList) : Prop := old.contents <+: new.contents

@[simp] theorem length_contents (list : ExprList) : list.contents.length = list.length := by
  simp [contents]

@[simp] theorem contents_addUse (list : ExprList) (id : ExprId) :
    (list.addUse id).contents = list.contents := by
  apply List.ext_getElem?
  intro position
  unfold addUse contents
  rw [List.getElem?_map, List.getElem?_map, List.getElem?_modify]
  by_cases same : id = position
  · simp [same, Option.map_map, Function.comp_def]
  · simp [same]

theorem contents_push (list : ExprList) (kind : ExprKind) (type : Option ValueType) :
    (list.push kind type).contents = list.contents ++ [(kind, type)] := by
  have uses : ∀ (ids : List ExprId) (list : ExprList),
      ExprList.contents (ids.foldl addUse list) = list.contents := by
    intro ids
    induction ids with
    | nil => exact fun _ => rfl
    | cons id rest ih =>
        intro list
        rw [List.foldl_cons, ih, contents_addUse]
  unfold push
  rw [← uses kind.operands list]
  simp [contents]

theorem holds_iff {list : ExprList} {id : ExprId} {kind : ExprKind} {type : Option ValueType} :
    list.Holds id kind type ↔
      ∃ expr, list[id]? = some expr ∧ expr.kind = kind ∧ expr.type = type := by
  simp [Holds, contents]

theorem Extends.refl (list : ExprList) : list.Extends list := List.prefix_rfl

theorem Extends.trans {first middle last : ExprList} (early : first.Extends middle)
    (late : middle.Extends last) : first.Extends last := List.IsPrefix.trans early late

theorem extends_push (list : ExprList) (kind : ExprKind) (type : Option ValueType) :
    list.Extends (list.push kind type) := by
  unfold Extends
  rw [contents_push]
  exact List.prefix_append _ _

theorem extends_addUse (list : ExprList) (id : ExprId) : list.Extends (list.addUse id) := by
  simp [Extends]

theorem Extends.length_le {old new : ExprList} (grown : old.Extends new) :
    old.length ≤ new.length := by
  simpa using List.IsPrefix.length_le grown

theorem holds_push (list : ExprList) (kind : ExprKind) (type : Option ValueType) :
    (list.push kind type).Holds list.length kind type := by
  unfold Holds
  rw [contents_push, ← length_contents, List.getElem?_concat_length]

theorem Holds.extend {old new : ExprList} (grown : old.Extends new) {id : ExprId}
    {kind : ExprKind} {type : Option ValueType} (held : old.Holds id kind type) :
    new.Holds id kind type := by
  obtain ⟨rest, same⟩ := grown
  unfold Holds at held ⊢
  rw [← same, List.getElem?_append_left (List.getElem?_eq_some_iff.1 held).1]
  exact held

theorem Holds.lt_length {list : ExprList} {id : ExprId} {kind : ExprKind}
    {type : Option ValueType} (held : list.Holds id kind type) : id < list.length := by
  simpa using (List.getElem?_eq_some_iff.1 held).1

theorem Holds.unique {list : ExprList} {id : ExprId} {kind otherKind : ExprKind}
    {type otherType : Option ValueType} (held : list.Holds id kind type)
    (other : list.Holds id otherKind otherType) : kind = otherKind ∧ type = otherType := by
  have same := Option.some.inj (held.symm.trans other)
  exact ⟨congrArg Prod.fst same, congrArg Prod.snd same⟩

/-- From a place on, expressions stand behind their operands. -/
def OrderedFrom (start : Nat) (list : ExprList) : Prop :=
  ∀ id kind type, start ≤ id → list.Holds id kind type → ∀ operand ∈ kind.operands, operand < id

theorem OrderedFrom.extend {start : Nat} {old new : ExprList} (grown : old.Extends new)
    (ordered : old.OrderedFrom start) (later : new.OrderedFrom old.length) :
    new.OrderedFrom start := by
  intro id kind type from_ held
  by_cases inside : id < old.length
  · obtain ⟨entry, found⟩ : ∃ entry, old.contents[id]? = some entry := by
      rw [← old.length_contents] at inside
      exact ⟨_, List.getElem?_eq_getElem inside⟩
    have heldOld : old.Holds id entry.1 entry.2 := found
    obtain ⟨rfl, _⟩ := (heldOld.extend grown).unique held
    exact ordered id entry.1 entry.2 from_ heldOld
  · exact later id kind type (Nat.le_of_not_lt inside) held

end ExprList

end MaterialGraph
