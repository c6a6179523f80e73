import MaterialGraph.Description.Reader
import MaterialGraph.Description.Writer
import MaterialGraph.Proofs.Graph.Layout
import MaterialGraph.Proofs.Text.Json.Reading
import MaterialGraph.Proofs.Text.Json.Record

/-!
Written descriptions. Each part of a description is read back from the tree that it is written as,
and the tree from its text; fields that are left out are those that have no value. A float that is
not finite has no numeral, so literals have to be finite, and that the numeral of a finite float
is read as that float is asked of the number formats.
-/

set_option autoImplicit false

namespace MaterialGraph

open Text

namespace Literal

def Restores (literal : Literal) : Prop := ∀ number ∈ literal.lanes, Json.Restores number

theorem ofJson?_vector {type : ValueType} (vector : type ≠ .scalar) (value : Json) :
    ofJson? (.record [(type.tag, value)]) = (value.list? Json.single?).bind (ofLanes? type) := by
  simp only [Json.record, List.map_cons, List.map_nil, ofJson?, ValueType.ofTag?_tag]

theorem ofJson?_toJson {literal : Literal} (restores : literal.Restores) :
    ofJson? literal.toJson = some literal := by
  have listed : (Json.array (literal.lanes.map Json.single)).list? Json.single? =
      some literal.lanes :=
    Json.list?_map fun number lane => (restores number lane).single?_single
  have vector (notScalar : literal.type ≠ .scalar) :
      ofJson? (.record [(literal.type.tag, .array (literal.lanes.map Json.single))]) =
        some literal := by
    rw [ofJson?_vector notScalar, listed, Option.bind_some, ofLanes?_lanes]
  cases literal with
  | scalar x =>
      have lane := (restores x List.mem_cons_self).single?_single
      simp only [toJson, Json.record, List.map_cons, List.map_nil, ofJson?, ValueType.ofTag?_tag]
      show ((Json.single x).single?).map scalar = _
      rw [lane, Option.map_some]
  | vec2 | vec3 | vec4 =>
      apply vector
      intro same
      cases same

theorem written_toJson (literal : Literal) : literal.toJson.Written := by
  have single (number : Single) : (Json.single number).Written := by
    unfold Json.single
    split
    · exact .number (Decimal.Layout.written_numeral _ number)
    · exact .null
  have lanes : (Json.array (literal.lanes.map Json.single)).Written :=
    .array (List.forall_mem_map.2 fun number _ => single number)
  apply Json.Written.record
  rw [List.forall_mem_singleton]
  cases literal with
  | scalar x => exact single x
  | vec2 | vec3 | vec4 => exact lanes

theorem isSound_toJson {literal : Literal} (restores : literal.Restores) :
    literal.toJson.isSound = true := by
  have lanes : (Json.array (literal.lanes.map Json.single)).isSound = true :=
    Json.isSound_array (List.forall_mem_map.2 fun number lane =>
      (restores number lane).isSound_single)
  apply Json.isSound_record
  rw [List.forall_mem_singleton]
  cases literal with
  | scalar x => exact (restores x List.mem_cons_self).isSound_single
  | vec2 | vec3 | vec4 => exact lanes

theorem height_toJson_le (literal : Literal) : literal.toJson.height ≤ 2 := by
  have lanes : (Json.array (literal.lanes.map Json.single)).height ≤ 1 :=
    Json.height_array_le (List.forall_mem_map.2 fun number _ =>
      Nat.le_of_eq (Json.height_single number))
  apply Json.height_record_le
  rw [List.forall_mem_singleton]
  cases literal with
  | scalar x => exact Nat.le_succ_of_le (Nat.le_of_eq (Json.height_single x))
  | vec2 | vec3 | vec4 => exact lanes

end Literal

namespace TypeSet

@[simp] theorem ofJson?_toJson (set : TypeSet) : ofJson? set.toJson = some set := by
  have listed : set.toJson.list? (fun element => element.name?.bind ValueType.ofTag?) =
      some set.toList :=
    Json.list?_map fun type _ => ValueType.ofTag?_tag type
  rw [ofJson?, listed, Option.map_some, ofList_toList]

theorem written_toJson (set : TypeSet) : set.toJson.Written :=
  .array (List.forall_mem_map.2 fun type _ => .text type.tag)

theorem isSound_toJson (set : TypeSet) : set.toJson.isSound = true :=
  Json.isSound_array (List.forall_mem_map.2 fun _ _ => rfl)

theorem height_toJson_le (set : TypeSet) : set.toJson.height ≤ 1 :=
  Json.height_array_le (List.forall_mem_map.2 fun _ _ => Nat.le_refl 0)

end TypeSet

theorem forall_mem_optionalField {Value : Type} {holds : Json → Prop} (name : String)
    {encode : Value → Json} {value : Option Value} (held : ∀ x ∈ value, holds (encode x)) :
    ∀ field ∈ optionalField name encode value, holds field.2 := by
  cases value with
  | none => exact fun _ member => nomatch member
  | some x => exact List.forall_mem_singleton.2 (held x rfl)

@[simp] theorem lookup_optionalField {Value : Type} (name key : String) (encode : Value → Json)
    (value : Option Value) :
    (optionalField name encode value).lookup key =
      if key = name then value.map encode else none := by
  cases value with
  | none => simp [optionalField]
  | some x =>
      rw [optionalField, List.lookup_cons, List.lookup_nil]
      by_cases same : key = name
      · rw [if_pos same, beq_iff_eq.2 same]
        rfl
      · rw [if_neg same, beq_eq_false_iff_ne.2 same]

namespace Kind

theorem forall_mem_fields (holds : Json → Prop) {kind : Kind String}
    (text : ∀ value, holds (.text value))
    (literal : ∀ value ∈ kind.literals, holds value.toJson)
    (set : ∀ types : TypeSet, holds types.toJson) :
    ∀ field ∈ kind.fields, holds field.2 := by
  have texts (name : String) (value : Option String) :
      ∀ field ∈ optionalField name Json.text value, holds field.2 :=
    forall_mem_optionalField name fun value _ => text value
  cases kind with
  | constant value parameter =>
      exact List.forall_mem_cons.2 ⟨literal value List.mem_cons_self, texts "parameter" parameter⟩
  | textureRef name source => exact List.forall_mem_cons.2 ⟨text name, texts "source" source⟩
  | textureSample => exact fun _ member => nomatch member
  | math | output | call => exact List.forall_mem_singleton.2 (text _)
  | functionInput name type default =>
      refine List.forall_mem_append.2 ⟨texts "name" name, ?_⟩
      refine List.forall_mem_cons.2 ⟨text type.tag, ?_⟩
      apply forall_mem_optionalField
      intro value given
      exact literal value (Option.mem_toList.2 given)
  | functionOutput name accepts =>
      exact List.forall_mem_append.2 ⟨texts "name" name, List.forall_mem_singleton.2 (set accepts)⟩

theorem distinct_fields (kind : Kind String) : ("kind" :: kind.fields.map Prod.fst).Nodup := by
  cases kind with
  | constant value parameter => cases parameter <;> simp [fields, optionalField]
  | textureRef name source => cases source <;> simp [fields, optionalField]
  | textureSample | math | output | call => simp [fields]
  | functionInput name type default =>
      cases name <;> cases default <;> simp [fields, optionalField]
  | functionOutput name accepts => cases name <;> simp [fields, optionalField]

theorem tagged?_toJson (kind : Kind String) :
    tagged? kind.toJson = some (kind.tag, .record kind.fields) := by
  have distinct : ((("kind", Json.text kind.tag) :: kind.fields).map Prod.fst).Nodup :=
    kind.distinct_fields
  obtain ⟨absent, _⟩ := List.nodup_cons.1 distinct
  have others : (kind.fields.map fun field => (some field.1, field.2)).filter
      (fun entry => entry.1 ≠ some "kind") =
        kind.fields.map fun field => (some field.1, field.2) := by
    rw [List.filter_eq_self]
    intro entry member
    obtain ⟨field, isField, rfl⟩ := List.mem_map.1 member
    apply decide_eq_true
    intro named
    exact absent (List.mem_map.2 ⟨field, isField, Option.some.inj named⟩)
  rw [toJson, Json.record, tagged?, Json.member?_record distinct, List.lookup_cons_self,
    List.map_cons, List.filter_cons_of_neg (by simp), others]
  rfl

theorem ofFields?_fields {kind : Kind String}
    (restores : ∀ literal ∈ kind.literals, literal.Restores) :
    ofFields? kind.tag (.record kind.fields) = some kind := by
  have given (names : List String) := Json.fields?_record
    (List.nodup_cons.1 kind.distinct_fields).2 names
  cases kind with
  | constant value parameter =>
      have read := Literal.ofJson?_toJson (restores value List.mem_cons_self)
      simp only [tag, ofFields?, given, List.map_cons, List.map_nil]
      simp [fields, List.lookup_cons, read]
  | textureRef name source =>
      simp only [tag, ofFields?, given, List.map_cons, List.map_nil]
      simp [fields, List.lookup_cons]
  | textureSample => rfl
  | math op =>
      simp only [tag, ofFields?, given, List.map_cons, List.map_nil]
      simp [fields, MathOp.ofTag?_tag]
  | output block =>
      simp only [tag, ofFields?, given, List.map_cons, List.map_nil]
      simp [fields, Block.ofTag?_tag]
  | functionInput name type default =>
      have read : Json.optional? Literal.ofJson? (default.map Literal.toJson) = some default := by
        apply Json.optional?_map
        · intro value absent
          cases absent
        · intro value held
          exact Literal.ofJson?_toJson (restores value (Option.mem_toList.2 held))
      simp only [tag, ofFields?, given, List.map_cons, List.map_nil]
      simp [fields, List.lookup_append, List.lookup_cons, ValueType.ofTag?_tag, read]
  | functionOutput name accepts =>
      simp only [tag, ofFields?, given, List.map_cons, List.map_nil]
      simp [fields, List.lookup_append, List.lookup_cons]
  | call path =>
      simp only [tag, ofFields?, given, List.map_cons, List.map_nil]
      simp [fields]

theorem written_toJson (kind : Kind String) : kind.toJson.Written := by
  apply Json.Written.record
  refine List.forall_mem_cons.2 ⟨.text kind.tag, ?_⟩
  exact forall_mem_fields Json.Written .text (fun value _ => value.written_toJson)
    TypeSet.written_toJson

theorem isSound_toJson {kind : Kind String}
    (restores : ∀ literal ∈ kind.literals, literal.Restores) : kind.toJson.isSound = true := by
  apply Json.isSound_record
  refine List.forall_mem_cons.2 ⟨rfl, ?_⟩
  exact forall_mem_fields (fun json => json.isSound = true) (fun _ => rfl)
    (fun value isLiteral => Literal.isSound_toJson (restores value isLiteral))
    TypeSet.isSound_toJson

theorem height_toJson_le (kind : Kind String) : kind.toJson.height ≤ heightLimit := by
  have low : kind.toJson.height ≤ 3 := by
    apply Json.height_record_le
    refine List.forall_mem_cons.2 ⟨Nat.zero_le 2, ?_⟩
    exact forall_mem_fields (fun json => json.height ≤ 2) (fun _ => Nat.zero_le 2)
      (fun value _ => value.height_toJson_le) fun set => Nat.le_succ_of_le set.height_toJson_le
  exact Nat.le_trans low (by decide)

theorem ofJson?_toJson {kind : Kind String}
    (restores : ∀ literal ∈ kind.literals, literal.Restores) : ofJson? kind.toJson = some kind := by
  rw [ofJson?, if_pos ⟨isSound_toJson restores, kind.height_toJson_le⟩, tagged?_toJson]
  exact ofFields?_fields restores

end Kind

theorem Link.ofJson?_toJson (link : Link) : ofJson? link.toJson = some link := by
  rw [ofJson?, toJson, Json.fields?_record (by simp)]
  simp [List.lookup_cons]

theorem Link.written_toJson (link : Link) : link.toJson.Written := by
  have number (value : UInt32) : (Json.nat value.toNat).Written :=
    .number (Decimal.Numeral.written_ofNat _)
  apply Json.Written.record
  simp only [List.forall_mem_cons]
  exact ⟨number _, number _, number _, number _, fun _ member => nomatch member⟩

theorem Override.ofJson?_toJson {override : Override} (restores : override.value.Restores) :
    ofJson? override.toJson = some override := by
  have read := Literal.ofJson?_toJson restores
  rw [ofJson?, toJson, Json.fields?_record (by simp)]
  simp [List.lookup_cons, read]

theorem Override.written_toJson (override : Override) : override.toJson.Written := by
  apply Json.Written.record
  simp only [List.forall_mem_cons]
  exact ⟨.number (Decimal.Numeral.written_ofNat _), override.value.written_toJson,
    fun _ member => nomatch member⟩

namespace Entry

def literals (entry : Entry) : List Literal :=
  entry.kind.literals ++ entry.defaults.map Override.value

theorem ofJson?_toJson {entry : Entry} (restores : ∀ literal ∈ entry.literals, literal.Restores) :
    ofJson? entry.toJson = some entry := by
  obtain ⟨id, locked, name, kind, defaults⟩ := entry
  obtain ⟨ofKind, ofDefaults⟩ := List.forall_mem_append.1 restores
  have readKind := Kind.ofJson?_toJson ofKind
  have readDefaults : (Json.array (defaults.map Override.toJson)).list? Override.ofJson? =
      some defaults :=
    Json.list?_map fun override member =>
      Override.ofJson?_toJson (List.forall_mem_map.1 ofDefaults override member)
  -- An empty list of defaults is left out, and read as the empty list that it is.
  cases defaults with
  | nil =>
      rw [ofJson?, toJson, Json.fields?_record (by cases name <;> simp [optionalField])]
      simp [List.lookup_append, List.lookup_cons, readKind, Json.boolean?, Json.default?]
  | cons override rest =>
      rw [List.map_cons] at readDefaults
      rw [ofJson?, toJson, Json.fields?_record (by cases name <;> simp [optionalField])]
      simp [List.lookup_append, List.lookup_cons, readKind, readDefaults, Json.boolean?]

theorem written_toJson (entry : Entry) : entry.toJson.Written := by
  have given : ∀ field ∈ (if entry.defaults.isEmpty then []
      else [("defaults", Json.array (entry.defaults.map Override.toJson))]), field.2.Written := by
    split
    · exact fun _ member => nomatch member
    · rw [List.forall_mem_singleton]
      exact .array (List.forall_mem_map.2 fun override _ => override.written_toJson)
  apply Json.Written.record
  simp only [List.forall_mem_append, List.forall_mem_cons]
  exact ⟨⟨⟨.number (Decimal.Numeral.written_ofNat _), .boolean _, fun _ member => nomatch member⟩,
    forall_mem_optionalField _ fun name _ => .text name⟩, entry.kind.written_toJson, given⟩

end Entry

namespace Description

def literals (description : Description) : List Literal := description.nodes.flatMap Entry.literals

theorem ofJson?_toJson {description : Description}
    (restores : ∀ literal ∈ description.literals, literal.Restores) :
    ofJson? description.toJson = some description := by
  have nodes : (Json.array (description.nodes.map Entry.toJson)).list? Entry.ofJson? =
      some description.nodes :=
    Json.list?_map fun entry member => Entry.ofJson?_toJson fun literal isLiteral =>
      restores literal (List.mem_flatMap.2 ⟨entry, member, isLiteral⟩)
  have links : (Json.array (description.links.map Link.toJson)).list? Link.ofJson? =
      some description.links :=
    Json.list?_map fun link _ => link.ofJson?_toJson
  rw [ofJson?, toJson, Json.fields?_record (by cases description.name <;> simp [optionalField])]
  simp [List.lookup_append, List.lookup_cons, nodes, links]

theorem written_toJson (description : Description) : description.toJson.Written := by
  apply Json.Written.record
  simp only [List.forall_mem_append, List.forall_mem_cons]
  exact ⟨forall_mem_optionalField _ fun name _ => .text name,
    .array (List.forall_mem_map.2 fun entry _ => entry.written_toJson),
    .array (List.forall_mem_map.2 fun link _ => link.written_toJson),
    fun _ member => nomatch member⟩

/-- A description is read back from its text once its literals are. -/
theorem read_write_of_restores {description : Description}
    (restores : ∀ literal ∈ description.literals, literal.Restores) :
    read description.write = .ok description := by
  rw [read, write, Json.read?_pretty description.written_toJson, Option.bind_some,
    ofJson?_toJson restores]

/-- Reading undoes writing for every description whose literals are finite, as far as the numerals
of its floats are read as these floats. -/
theorem read_write {description : Description}
    (finite : ∀ literal ∈ description.literals, literal.isFinite = true)
    (reads : ∀ literal ∈ description.literals, ∀ number ∈ literal.lanes,
      (Json.floatLayout.numeral number).single? = some number) :
    read description.write = .ok description := by
  apply read_write_of_restores
  intro literal isLiteral number lane
  exact ⟨List.all_eq_true.1 (finite literal isLiteral) number lane,
    reads literal isLiteral number lane⟩

/-- A description with a quoted and accented name, a negative zero, a tenth and the smallest float
among its literals, and a formal output that accepts nothing. -/
def unusual : Description :=
  ⟨some "\"rösti\"\n",
    [⟨1, true, none, .constant (.vec3 ⟨0x80000000⟩ ⟨0x3DCCCCCD⟩ ⟨1⟩) (some "tint"), []⟩,
      ⟨2, false, some "", .functionInput none .texture none, []⟩,
      ⟨3, false, none, .functionOutput none .empty, [⟨0, .scalar .one⟩]⟩,
      ⟨4, false, some "call", .call "a/b", []⟩],
    [⟨1, 0, 3, 0⟩]⟩

theorem read_write_unusual : read unusual.write = .ok unusual :=
  read_write (by decide) (by decide +kernel)

end Description

end MaterialGraph
