import MaterialGraph.Text.Json.Reader
import MaterialGraph.Text.Json.Record
import MaterialGraph.Proofs.Lists

/-!
Where numerals come from. Each token adds at most one numeral to the value being read, so all
numerals of a value are tokens of its text; and what is read out of a record holds no others.
-/

set_option autoImplicit false

namespace MaterialGraph.Text.Json

open Decimal

inductive Within (known : Numeral → Prop) : Json → Prop
  | null : Within known null
  | boolean (value : Bool) : Within known (boolean value)
  | number {numeral : Numeral} (here : known numeral) : Within known (number numeral)
  | string (text : Option String) : Within known (string text)
  | array {elements : List Json} (each : ∀ element ∈ elements, Within known element) :
      Within known (array elements)
  | object {members : List (Option String × Json)}
      (each : ∀ entry ∈ members, Within known entry.2) : Within known (object members)

variable {known : Numeral → Prop}

def Frame.Within (known : Numeral → Prop) : Frame → Prop
  | array done => ∀ element ∈ done, Json.Within known element
  | object done _ => ∀ entry ∈ done, Json.Within known entry.2

namespace Reader

def Within (known : Numeral → Prop) : Reader → Prop
  | value stack _ => ∀ frame ∈ stack, frame.Within known
  | key stack done _ => (∀ frame ∈ stack, frame.Within known) ∧
      ∀ entry ∈ done, Json.Within known entry.2
  | colon stack done _ => (∀ frame ∈ stack, frame.Within known) ∧
      ∀ entry ∈ done, Json.Within known entry.2
  | afterValue frame stack => frame.Within known ∧ ∀ frame ∈ stack, frame.Within known
  | complete result => result.Within known

theorem within_finish {value : Json} (held : value.Within known) {stack : List Frame}
    (within : ∀ frame ∈ stack, frame.Within known) : (finish value stack).Within known := by
  cases stack with
  | nil => exact held
  | cons frame rest =>
      obtain ⟨inner, outer⟩ := List.forall_mem_cons.1 within
      cases frame with
      | array done => exact ⟨List.forall_mem_cons.2 ⟨held, inner⟩, outer⟩
      | object done name => exact ⟨List.forall_mem_cons.2 ⟨held, inner⟩, outer⟩

theorem within_step {reader next : Reader} {token : Token} (stepped : reader.step token = some next)
    (within : reader.Within known) (new : ∀ numeral, token = .number numeral → known numeral) :
    next.Within known := by
  unfold step at stepped
  split at stepped <;> cases stepped
  · exact ⟨within, List.forall_mem_nil _⟩
  · exact List.forall_mem_cons.2 ⟨List.forall_mem_nil _, within⟩
  · exact within_finish .null within
  · exact within_finish (.boolean _) within
  · exact within_finish (.number (new _ rfl)) within
  · exact within_finish (.string _) within
  · exact within_finish (.array (List.forall_mem_nil _)) (List.forall_mem_cons.1 within).2
  · exact within
  · exact within_finish (.object (List.forall_mem_nil _)) within.1
  · exact List.forall_mem_cons.2 ⟨within.2, within.1⟩
  · exact List.forall_mem_cons.2 within
  · exact within_finish (.array fun element member => within.1 element (List.mem_reverse.1 member))
      within.2
  · exact ⟨within.2, within.1⟩
  · exact within_finish (.object fun entry member => within.1 entry (List.mem_reverse.1 member))
      within.2

theorem within_run {tokens : List Token} {reader last : Reader}
    (ran : tokens.foldlM step reader = some last) (within : reader.Within known)
    (new : ∀ numeral, .number numeral ∈ tokens → known numeral) : last.Within known := by
  induction tokens generalizing reader with
  | nil =>
      cases ran
      exact within
  | cons token rest induction =>
      rw [List.foldlM_cons] at ran
      obtain ⟨next, stepped, later⟩ := Option.bind_eq_some_iff.1 ran
      refine induction later (within_step stepped within ?_) ?_
      · rintro numeral rfl
        exact new numeral List.mem_cons_self
      · exact fun numeral member => new numeral (List.mem_cons_of_mem _ member)

end Reader

theorem forall₂_of_mapM_eq_some {Item Value : Type} {step : Item → Option Value}
    {items : List Item} {values : List Value} (ran : items.mapM step = some values) :
    List.Forall₂ (fun item value => step item = some value) items values := by
  induction items generalizing values with
  | nil =>
      cases ran
      exact .nil
  | cons item rest induction =>
      rw [List.mapM_cons] at ran
      obtain ⟨first, here, ranRest⟩ := Option.bind_eq_some_iff.1 ran
      obtain ⟨others, later, same⟩ := Option.bind_eq_some_iff.1 ranRest
      cases same
      exact .cons here (induction later)

/-- The numerals of a value are tokens of its text. -/
theorem within_read? {text : String} {json : Json} (read : read? text = some json) :
    ∃ tokens, tokens? text = some tokens ∧
      json.Within fun numeral => .number numeral ∈ tokens := by
  unfold read? at read
  split at read
  · cases read
  rename_i tokens scanned
  split at read
  · rename_i value ran
    cases read
    have within := Reader.within_run ran (List.forall_mem_nil _) fun _ member => member
    exact ⟨tokens, scanned, within⟩
  · cases read

theorem Within.of_element {elements : List Json} (within : (Json.array elements).Within known)
    {element : Json} (member : element ∈ elements) : element.Within known := by
  cases within with
  | array each => exact each element member

theorem Within.of_entry {members : List (Option String × Json)}
    (within : (Json.object members).Within known) {entry : Option String × Json}
    (member : entry ∈ members) : entry.2.Within known := by
  cases within with
  | object each => exact each entry member

theorem within_member? {members : List (Option String × Json)}
    (within : (Json.object members).Within known) {name : String} {value : Json}
    (found : member? members name = some (some value)) : value.Within known := by
  unfold member? at found
  split at found
  · cases found
  · rename_i key held only
    cases found
    have listed : (key, value) ∈ members.filter fun entry => entry.1 = some name := by
      rw [only]
      exact List.mem_singleton_self _
    exact within.of_entry (List.mem_of_mem_filter listed)
  · cases found

theorem within_fields? {json : Json} (within : json.Within known) {names : List String}
    {fields : List (Option Json)} (read : json.fields? names = some fields) :
    ∀ value, some value ∈ fields → value.Within known := by
  intro value member
  unfold fields? at read
  split at read
  · split at read
    · obtain ⟨name, _, found⟩ :=
        exists_related_of_mem (forall₂_of_mapM_eq_some read).flip member
      exact within_member? within found
    · cases read
  · split at read
    · cases read
      rcases List.mem_append.1 member with given | missing
      · obtain ⟨element, listed, same⟩ := List.mem_map.1 given
        cases same
        exact within.of_element listed
      · cases List.eq_of_mem_replicate missing
    · cases read
  · cases read

section Fields

variable {Value : Type} {read : Json → Option Value} {field : Option Json} {value : Value}

theorem exists_of_required? (given : required? read field = some value) :
    ∃ json, field = some json ∧ read json = some value :=
  Option.bind_eq_some_iff.1 given

theorem exists_of_optional? (given : optional? read field = some (some value)) :
    ∃ json, field = some json ∧ read json = some value := by
  unfold optional? at given
  split at given
  · cases given
  · cases given
  · rename_i json _
    obtain ⟨_, here, same⟩ := Option.map_eq_some_iff.1 given
    cases same
    exact ⟨json, rfl, here⟩

theorem eq_or_exists_of_default? {missing : Value}
    (given : default? read missing field = some value) :
    value = missing ∨ ∃ json, field = some json ∧ read json = some value := by
  cases field with
  | none => exact .inl (Option.some.inj given).symm
  | some json => exact .inr ⟨json, rfl, given⟩

theorem Within.exists_of_list? {json : Json} (within : json.Within known) {values : List Value}
    (given : json.list? read = some values) (member : value ∈ values) :
    ∃ element : Json, element.Within known ∧ read element = some value := by
  cases json with
  | array elements =>
      obtain ⟨element, listed, here⟩ :=
        exists_related_of_mem (forall₂_of_mapM_eq_some given).flip member
      exact ⟨element, within.of_element listed, here⟩
  | _ => cases given

theorem exists_of_list?_map {Other : Type} {encode : Other → Json} {others : List Other}
    {values : List Value} (given : (array (others.map encode)).list? read = some values)
    {other : Other} (member : other ∈ others) : ∃ value, read (encode other) = some value := by
  obtain ⟨value, _, here⟩ := exists_related_of_mem (forall₂_of_mapM_eq_some given)
    (List.mem_map_of_mem member)
  exact ⟨value, here⟩

end Fields

end MaterialGraph.Text.Json
