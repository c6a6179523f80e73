/-!
Tables: association lists that hold each key once, in the order in which keys were first added.
-/

set_option autoImplicit false

namespace MaterialGraph

abbrev Table (Key Value : Type) := List (Key × Value)

namespace Table

variable {Key Value : Type} [DecidableEq Key]

def find? (key : Key) : Table Key Value → Option Value
  | [] => none
  | (first, value) :: rest => if first = key then some value else find? key rest

/-- Gives a key a value, in its old place or at the end. -/
def insert (key : Key) (value : Value) : Table Key Value → Table Key Value
  | [] => [(key, value)]
  | (first, old) :: rest =>
      if first = key then (first, value) :: rest else (first, old) :: insert key value rest

def keys (table : Table Key Value) : List Key := table.map Prod.fst

@[simp] theorem find?_nil (key : Key) : find? key ([] : Table Key Value) = none := rfl

@[simp] theorem find?_insert_self (key : Key) (value : Value) (table : Table Key Value) :
    find? key (insert key value table) = some value := by
  induction table with
  | nil => simp [insert, find?]
  | cons first rest induction =>
      unfold insert
      split <;> simp_all [find?]

theorem find?_insert_of_ne {key other : Key} (different : key ≠ other) (value : Value)
    (table : Table Key Value) : find? other (insert key value table) = find? other table := by
  induction table with
  | nil => simp [insert, find?, different]
  | cons first rest induction =>
      unfold insert
      split <;> simp_all [find?]

theorem find?_insert_cases {table : Table Key Value} {key other : Key} {value found : Value}
    (known : find? other (insert key value table) = some found) :
    (key = other ∧ value = found) ∨ (key ≠ other ∧ find? other table = some found) := by
  by_cases same : key = other
  · subst same
    rw [find?_insert_self] at known
    exact .inl ⟨rfl, Option.some.inj known⟩
  · rw [find?_insert_of_ne same] at known
    exact .inr ⟨same, known⟩

/-- What holds of all entries holds after an insertion, if it holds of the new entry. -/
theorem forall_insert (holds : Key → Value → Prop) {table : Table Key Value} {key : Key}
    {value : Value} (old : ∀ other found, find? other table = some found → holds other found)
    (new : holds key value) (other : Key) (found : Value)
    (known : find? other (insert key value table) = some found) : holds other found := by
  rcases find?_insert_cases known with ⟨rfl, rfl⟩ | ⟨_, before⟩
  · exact new
  · exact old other found before

theorem find?_append (table more : Table Key Value) (key : Key) :
    find? key (table ++ more) = (table.find? key).or (more.find? key) := by
  induction table with
  | nil => rfl
  | cons first rest induction =>
      rw [List.cons_append, find?.eq_2, find?.eq_2]
      split
      · rfl
      · exact induction

theorem find?_eq_none_iff {table : Table Key Value} {key : Key} :
    table.find? key = none ↔ key ∉ table.keys := by
  induction table with
  | nil => simp [keys]
  | cons first rest induction =>
      rw [find?.eq_2]
      split <;> simp_all [keys, eq_comm]

theorem insert_of_notMem {table : Table Key Value} {key : Key} (absent : key ∉ table.keys)
    (value : Value) : table.insert key value = table ++ [(key, value)] := by
  induction table with
  | nil => rfl
  | cons first rest induction =>
      simp only [keys, List.map_cons, List.mem_cons, not_or] at absent
      rw [insert.eq_2, if_neg (Ne.symm absent.1), induction absent.2, List.cons_append]

theorem mem_of_find? {table : Table Key Value}
    {key : Key} {value : Value} (found : table.find? key = some value) :
    (key, value) ∈ table := by
  induction table with
  | nil => simp at found
  | cons first rest induction =>
      unfold find? at found
      split at found
      · rename_i equal
        cases found
        subst equal
        exact List.mem_cons_self
      · exact List.mem_cons_of_mem _ (induction found)

end Table

end MaterialGraph
