import MaterialGraph.Proofs.Decimal.Digits
import MaterialGraph.Proofs.Lists
import MaterialGraph.Text.Json.Record

/-!
Records and simple values that are read back. A record whose fields have different names gives
each field what it holds, and what is taken up as a whole is sound and as deep as its parts allow.
-/

set_option autoImplicit false

namespace MaterialGraph.Text.Json

open Decimal

/-- A record with different names holds each field once or not at all. -/
theorem member?_record {fields : List (String × Json)} (distinct : (fields.map Prod.fst).Nodup)
    (name : String) :
    member? (fields.map fun field => (some field.1, field.2)) name = some (fields.lookup name) := by
  induction fields with
  | nil => rfl
  | cons field rest ih =>
      obtain ⟨key, value⟩ := field
      obtain ⟨absent, others⟩ := List.nodup_cons.1 distinct
      by_cases same : key = name
      · have none : (rest.map fun field => (some field.1, field.2)).filter
            (fun entry => entry.1 = some name) = [] := by
          rw [List.filter_eq_nil_iff]
          intro entry member named
          obtain ⟨field, isField, rfl⟩ := List.mem_map.1 member
          have repeated : field.1 = name := Option.some.inj (of_decide_eq_true named)
          apply absent
          rw [same]
          exact List.mem_map.2 ⟨field, isField, repeated⟩
        rw [List.map_cons, member?, List.filter_cons_of_pos (by simp [same]), none, same,
          List.lookup_cons_self]
      · have other : (name == key) = false := beq_eq_false_iff_ne.2 (Ne.symm same)
        rw [List.map_cons, member?, List.filter_cons_of_neg (by simpa using same), ← member?,
          ih others, List.lookup_cons, other]

theorem fields?_record {fields : List (String × Json)} (distinct : (fields.map Prod.fst).Nodup)
    (names : List String) :
    (record fields).fields? names = some (names.map fun name => fields.lookup name) := by
  have named : (fields.map fun field => (some field.1, field.2)).all
      (fun entry => entry.1.isSome) = true := by
    rw [List.all_map, List.all_eq_true]
    exact fun _ _ => rfl
  rw [record, fields?, if_pos named]
  apply mapM_eq_some_of_forall₂
  rw [List.forall₂_map_right_iff]
  exact List.forall₂_same.2 fun name _ => member?_record distinct name

theorem list?_map {Value : Type} {read : Json → Option Value} {encode : Value → Json}
    {values : List Value} (back : ∀ value ∈ values, read (encode value) = some value) :
    (array (values.map encode)).list? read = some values := by
  apply mapM_eq_some_of_forall₂
  rw [List.forall₂_map_left_iff]
  exact List.forall₂_same.2 back

theorem optional?_map {Value : Type} {read : Json → Option Value} {encode : Value → Json}
    (given : ∀ value, encode value ≠ null) {value : Option Value}
    (back : ∀ held ∈ value, read (encode held) = some held) :
    optional? read (value.map encode) = some value := by
  cases value with
  | none => rfl
  | some held =>
      rw [Option.map_some, optional?, back held rfl, Option.map_some]
      exact given held

@[simp] theorem text?_text (value : String) : text? (text value) = some value := rfl

@[simp] theorem name?_text (value : String) : name? (text value) = some value := rfl

@[simp] theorem required?_some {Value : Type} (read : Json → Option Value) (json : Json) :
    required? read (some json) = read json := rfl

@[simp] theorem default?_some {Value : Type} (read : Json → Option Value) (missing : Value)
    (json : Json) : default? read missing (some json) = read json := rfl

@[simp] theorem optional?_text (value : Option String) :
    optional? text? (value.map text) = some value := by
  apply optional?_map
  · intro value absent
    cases absent
  · exact fun _ _ => rfl

@[simp] theorem word?_nat (number : UInt32) : (nat number.toNat).word? = some number := by
  have fits : number.toNat < Nat.pow 2 32 := number.toNat_lt
  show Numeral.word? (Numeral.ofNat number.toNat) = some number
  unfold Numeral.word? Numeral.ofNat
  simp only [natOfDigits_digitsOfNat]
  rw [if_pos fits, UInt32.ofNat_toNat]
  rfl

structure Restores (number : Single) : Prop where
  finite : number.isFinite = true
  reads : (floatLayout.numeral number).single? = some number

theorem Restores.single?_single {number : Single} (restores : Restores number) :
    (single number).single? = some number := by
  rw [single, if_pos restores.finite]
  exact restores.reads

theorem Restores.isSound_single {number : Single} (restores : Restores number) :
    (single number).isSound = true := by
  have reads := restores.reads
  rw [single, if_pos restores.finite, isSound]
  unfold Numeral.single? at reads
  split at reads
  · rename_i exact
    rw [exact, Bool.true_or]
  · split at reads
    · cases reads
    · rename_i value read
      rw [read, Option.isSome_some, Bool.or_true]

theorem height_single (number : Single) : (single number).height = 0 := by
  unfold single
  split <;> rfl

theorem isSound_array {elements : List Json} (each : ∀ element ∈ elements, isSound element = true) :
    isSound (array elements) = true := by
  rw [isSound]
  induction elements with
  | nil => rfl
  | cons element rest ih =>
      obtain ⟨first, others⟩ := List.forall_mem_cons.1 each
      rw [areSoundElements, first, ih others, Bool.and_true]

theorem isSound_record {fields : List (String × Json)}
    (each : ∀ field ∈ fields, isSound field.2 = true) : isSound (record fields) = true := by
  rw [record, isSound]
  induction fields with
  | nil => rfl
  | cons field rest ih =>
      obtain ⟨first, others⟩ := List.forall_mem_cons.1 each
      rw [List.map_cons, areSoundMembers, first, ih others]
      rfl

theorem height_array_le {elements : List Json} {limit : Nat}
    (each : ∀ element ∈ elements, height element ≤ limit) :
    height (array elements) ≤ limit + 1 := by
  rw [height]
  apply Nat.succ_le_succ
  induction elements with
  | nil => exact Nat.zero_le limit
  | cons element rest ih =>
      obtain ⟨first, others⟩ := List.forall_mem_cons.1 each
      rw [heightOfElements]
      exact Nat.max_le.2 ⟨first, ih others⟩

theorem height_record_le {fields : List (String × Json)} {limit : Nat}
    (each : ∀ field ∈ fields, height field.2 ≤ limit) : height (record fields) ≤ limit + 1 := by
  rw [record, height]
  apply Nat.succ_le_succ
  induction fields with
  | nil => exact Nat.zero_le limit
  | cons field rest ih =>
      obtain ⟨first, others⟩ := List.forall_mem_cons.1 each
      rw [List.map_cons, heightOfMembers]
      exact Nat.max_le.2 ⟨first, ih others⟩

end MaterialGraph.Text.Json
