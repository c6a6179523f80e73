import MaterialGraph.Expr.Parameters

/-!
Collecting the uniforms of a list of expressions fails exactly if two named constants give one name
different types; if it does not, the table holds exactly the names and types that occur.
-/

set_option autoImplicit false

namespace MaterialGraph

namespace Expr

def Conflicting (exprs : List Expr) : Prop :=
  ∃ left ∈ exprs, ∃ right ∈ exprs, ∃ name first second,
    left.parameter? = some (name, first) ∧ right.parameter? = some (name, second) ∧ first ≠ second

end Expr

namespace Parameters

def Declares (parameters : Parameters) (exprs : List Expr) : Prop :=
  ∀ name type, parameters.find? name = some type ↔
    ∃ expr ∈ exprs, expr.parameter? = some (name, type)

def Within (inner outer : Parameters) : Prop :=
  ∀ name type, inner.find? name = some type → outer.find? name = some type

theorem Within.refl (parameters : Parameters) : parameters.Within parameters :=
  fun _ _ found => found

theorem Within.nil (parameters : Parameters) : Within [] parameters := by
  intro name type found
  cases found

theorem Within.trans {first middle last : Parameters} (early : first.Within middle)
    (late : middle.Within last) : first.Within last :=
  fun name type found => late name type (early name type found)

/-- The table holds the uniforms of some expressions, at the types they are used at. -/
def Serves (parameters : Parameters) (exprs : ExprList) : Prop :=
  ∀ expr ∈ exprs, ∀ name type, expr.parameter? = some (name, type) →
    parameters.find? name = some type

theorem declares_nil : Declares [] [] := by
  intro name type
  simp

theorem Declares.not_conflicting {parameters : Parameters} {exprs : List Expr}
    (declares : parameters.Declares exprs) : ¬Expr.Conflicting exprs := by
  rintro ⟨left, leftMember, right, rightMember, name, first, second, atLeft, atRight, different⟩
  have foundFirst := (declares name first).2 ⟨left, leftMember, atLeft⟩
  have foundSecond := (declares name second).2 ⟨right, rightMember, atRight⟩
  exact different (Option.some.inj (foundFirst.symm.trans foundSecond))

theorem Declares.unnamed {parameters : Parameters} {exprs : List Expr} {expr : Expr}
    (declares : parameters.Declares exprs) (unnamed : expr.parameter? = none) :
    parameters.Declares (exprs ++ [expr]) := by
  intro name type
  rw [declares name type]
  simp [or_and_right, exists_or, unnamed]

theorem Declares.declare {parameters next : Parameters} {exprs : List Expr} {expr : Expr}
    {name : String} {type : ValueType} {new : Bool} (declares : parameters.Declares exprs)
    (named : expr.parameter? = some (name, type))
    (declared : parameters.declare name type = .ok (next, new)) :
    next.Declares (exprs ++ [expr]) := by
  intro other otherType
  have split : (∃ entry ∈ exprs ++ [expr], entry.parameter? = some (other, otherType)) ↔
      parameters.find? other = some otherType ∨ (name = other ∧ type = otherType) := by
    rw [declares other otherType]
    simp [or_and_right, exists_or, named]
  rw [split]
  unfold Parameters.declare at declared
  cases found : parameters.find? name with
  | some first =>
      simp only [found] at declared
      split at declared
      · rename_i same
        cases declared
        constructor
        · exact Or.inl
        · rintro (old | ⟨rfl, rfl⟩)
          · exact old
          · rw [found, same]
      · cases declared
  | none =>
      simp only [found] at declared
      cases declared
      by_cases same : name = other
      · subst same
        rw [Table.find?_insert_self, found]
        simp
      · rw [Table.find?_insert_of_ne same]
        simp [same]

theorem collect_run {parameters : Parameters} {done rest : List Expr}
    (declares : parameters.Declares done) :
    ((collect rest parameters).2 = none ↔ ¬Expr.Conflicting (done ++ rest)) ∧
      ((collect rest parameters).2 = none →
        (collect rest parameters).1.Declares (done ++ rest)) := by
  induction rest generalizing parameters done with
  | nil => simpa [collect] using ⟨declares.not_conflicting, declares⟩
  | cons expr rest ih =>
      have shift : done ++ expr :: rest = done ++ [expr] ++ rest := by simp
      rw [shift]
      unfold collect
      cases named : expr.parameter? with
      | none => exact ih (declares.unnamed named)
      | some entry =>
          obtain ⟨name, type⟩ := entry
          cases declared : parameters.declare name type with
          | ok result =>
              obtain ⟨next, new⟩ := result
              simp only [declared]
              exact ih (declares.declare named declared)
          | error conflict =>
              simp only [declared, reduceCtorEq, false_iff, Classical.not_not, false_implies,
                and_true]
              unfold Parameters.declare at declared
              split at declared
              · rename_i first found
                split at declared
                · cases declared
                · rename_i different
                  obtain ⟨old, member, atOld⟩ := (declares name first).1 found
                  exact ⟨old, by simp [member], expr, by simp, name, first, type, atOld, named,
                    different⟩
              · cases declared

theorem collect_eq_none_iff (exprs : List Expr) :
    (collect exprs []).2 = none ↔ ¬Expr.Conflicting exprs :=
  (collect_run declares_nil).1

theorem declares_collect {exprs : List Expr} (clean : (collect exprs []).2 = none) :
    (collect exprs []).1.Declares exprs :=
  (collect_run declares_nil).2 clean

end Parameters

end MaterialGraph
