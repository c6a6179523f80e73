import MaterialGraph.Proofs.Decimal.Rounding
import MaterialGraph.Proofs.Description.RoundTrip
import MaterialGraph.Proofs.Text.Json.Numerals

/-!
Literals out of range. Every lane of a literal that is read is the number of a numeral of the text.
A numeral that is too large for the 32-bit format, but not for the wide ones, is accepted and read
as an infinity, which is saved as null, so that the graph cannot be loaded again, and which shader
code has no numeral for.
-/

set_option autoImplicit false

namespace MaterialGraph

open Text Decimal

variable {known : Numeral → Prop}

namespace Literal

def ReadFrom (known : Numeral → Prop) (literal : Literal) : Prop :=
  ∀ number ∈ literal.lanes, ∃ numeral, known numeral ∧ numeral.single? = some number

theorem exists_of_single? {json : Json} (within : json.Within known) {number : Single}
    (read : json.single? = some number) :
    ∃ numeral, known numeral ∧ numeral.single? = some number := by
  cases within with
  | number here => exact ⟨_, here, read⟩
  | _ => cases read

theorem lanes_of_ofLanes? {type : ValueType} {numbers : List Single} {literal : Literal}
    (made : ofLanes? type numbers = some literal) : literal.lanes = numbers := by
  unfold ofLanes? at made
  split at made <;> cases made <;> rfl

theorem readFrom_of_ofJson? {json : Json} (within : json.Within known) {literal : Literal}
    (read : ofJson? json = some literal) : literal.ReadFrom known := by
  unfold ofJson? at read
  split at read
  · rename_i tag value
    have inner : value.Within known := within.of_entry (List.mem_singleton_self _)
    split at read
    · cases read
    · obtain ⟨number, here, rfl⟩ := Option.map_eq_some_iff.1 read
      intro lane member
      obtain rfl := List.mem_singleton.1 member
      exact exists_of_single? inner here
    · obtain ⟨numbers, listed, made⟩ := Option.bind_eq_some_iff.1 read
      intro lane member
      rw [lanes_of_ofLanes? made] at member
      obtain ⟨element, held, here⟩ := inner.exists_of_list? listed member
      exact exists_of_single? held here
  · cases read

end Literal

namespace Kind

theorem readFrom_of_ofFields? {tag : String} {rest : Json} (within : rest.Within known)
    {kind : Kind String} (read : ofFields? tag rest = some kind) :
    ∀ literal ∈ kind.literals, literal.ReadFrom known := by
  intro literal member
  unfold ofFields? at read
  split at read
  -- Constants, with the literal as their value.
  case h_1 =>
    split at read
    · rename_i value parameter fields
      simp only [Option.bind_eq_bind, Option.bind_eq_some_iff] at read
      rcases read with ⟨_, given, _, _, ⟨⟩⟩
      obtain rfl := List.mem_singleton.1 member
      obtain ⟨json, rfl, here⟩ := Json.exists_of_required? given
      exact Literal.readFrom_of_ofJson?
        (Json.within_fields? within fields json List.mem_cons_self) here
    · cases read
  -- Formal inputs, with the literal as their default.
  case h_6 =>
    split at read
    · rename_i name type default fields
      simp only [Option.bind_eq_bind, Option.bind_eq_some_iff] at read
      rcases read with ⟨_, _, _, _, _, _, _, given, ⟨⟩⟩
      obtain rfl := Option.mem_toList.1 member
      obtain ⟨json, rfl, here⟩ := Json.exists_of_optional? given
      exact Literal.readFrom_of_ofJson? (Json.within_fields? within fields json (by simp)) here
    · cases read
  -- The other kinds have no literals.
  case h_2 | h_7 =>
    split at read
    · simp only [Option.bind_eq_bind, Option.bind_eq_some_iff] at read
      rcases read with ⟨_, _, _, _, ⟨⟩⟩
      cases member
    · cases read
  case h_3 =>
    split at read
    · cases read
      cases member
    · cases read
  case h_4 | h_5 =>
    split at read
    · simp only [Option.bind_eq_bind, Option.bind_eq_some_iff, Option.map_eq_map,
        Option.map_eq_some_iff] at read
      rcases read with ⟨_, _, _, _, rfl⟩
      cases member
    · cases read
  case h_8 =>
    split at read
    · simp only [Option.bind_eq_bind, Option.bind_eq_some_iff] at read
      rcases read with ⟨_, _, ⟨⟩⟩
      cases member
    · cases read
  case h_9 => cases read

theorem within_tagged? {json : Json} (within : json.Within known) {tag : String} {rest : Json}
    (split : tagged? json = some (tag, rest)) : rest.Within known := by
  unfold tagged? at split
  split at split
  · split at split
    · cases split
      exact .object fun entry member => within.of_entry (List.mem_of_mem_filter member)
    · cases split
  · cases split
    exact .array fun element member => within.of_element (List.mem_cons_of_mem _ member)
  · cases split

theorem readFrom_of_ofJson? {json : Json} (within : json.Within known) {kind : Kind String}
    (read : ofJson? json = some kind) : ∀ literal ∈ kind.literals, literal.ReadFrom known := by
  unfold ofJson? at read
  split at read
  · split at read
    · rename_i tag rest tagged
      exact readFrom_of_ofFields? (within_tagged? within tagged) read
    · cases read
  · cases read

end Kind

theorem Override.readFrom_of_ofJson? {json : Json} (within : json.Within known)
    {override : Override} (read : ofJson? json = some override) :
    override.value.ReadFrom known := by
  unfold ofJson? at read
  split at read
  · rename_i slot value fields
    simp only [Option.bind_eq_bind, Option.bind_eq_some_iff] at read
    rcases read with ⟨_, _, _, given, ⟨⟩⟩
    obtain ⟨held, rfl, here⟩ := Json.exists_of_required? given
    exact Literal.readFrom_of_ofJson? (Json.within_fields? within fields held (by simp)) here
  · cases read

theorem Entry.readFrom_of_ofJson? {json : Json} (within : json.Within known) {entry : Entry}
    (read : ofJson? json = some entry) : ∀ literal ∈ entry.literals, literal.ReadFrom known := by
  unfold ofJson? at read
  split at read
  · rename_i id locked name node defaults fields
    simp only [Option.bind_eq_bind, Option.bind_eq_some_iff] at read
    rcases read with ⟨_, _, _, _, _, _, kind, ofNode, overrides, ofDefaults, ⟨⟩⟩
    obtain ⟨described, rfl, atKind⟩ := Json.exists_of_required? ofNode
    refine List.forall_mem_append.2 ⟨?_, List.forall_mem_map.2 ?_⟩
    · exact Kind.readFrom_of_ofJson? (Json.within_fields? within fields described (by simp)) atKind
    · intro override member
      rcases Json.eq_or_exists_of_default? ofDefaults with rfl | ⟨listed, rfl, atDefaults⟩
      · cases member
      · have inner := Json.within_fields? within fields listed (by simp)
        obtain ⟨element, held, here⟩ := inner.exists_of_list? atDefaults member
        exact Override.readFrom_of_ofJson? held here
  · cases read

namespace Description

theorem readFrom_of_ofJson? {json : Json} (within : json.Within known) {description : Description}
    (read : ofJson? json = some description) :
    ∀ literal ∈ description.literals, literal.ReadFrom known := by
  unfold ofJson? at read
  split at read
  · rename_i name nodes links fields
    simp only [Option.bind_eq_bind, Option.bind_eq_some_iff] at read
    rcases read with ⟨_, _, entries, ofNodes, _, _, ⟨⟩⟩
    intro literal member
    obtain ⟨entry, isEntry, atEntry⟩ := List.mem_flatMap.1 member
    rcases Json.eq_or_exists_of_default? ofNodes with rfl | ⟨listed, rfl, atNodes⟩
    · cases isEntry
    · have inner := Json.within_fields? within fields listed (by simp)
      obtain ⟨element, held, here⟩ := inner.exists_of_list? atNodes isEntry
      exact Entry.readFrom_of_ofJson? held here literal atEntry
  · cases read

/-- Every lane of every literal comes from a numeral of the text. -/
theorem readFrom_of_read {text : String} {description : Description}
    (accepted : read text = .ok description) :
    ∃ tokens, Json.tokens? text = some tokens ∧ ∀ literal ∈ description.literals,
      literal.ReadFrom fun numeral => .number numeral ∈ tokens := by
  unfold read at accepted
  split at accepted
  · rename_i found
    cases accepted
    obtain ⟨json, parsed, decoded⟩ := Option.bind_eq_some_iff.1 found
    obtain ⟨tokens, scanned, within⟩ := Json.within_read? parsed
    exact ⟨tokens, scanned, readFrom_of_ofJson? within decoded⟩
  · cases accepted

end Description

/-- A literal that is read back from what it is saved as is finite. -/
theorem Literal.isFinite_of_ofJson?_toJson {literal other : Literal}
    (read : ofJson? literal.toJson = some other) : literal.isFinite = true := by
  have lane : ∀ number found : Single, (Json.single number).single? = some found →
      number.isFinite = true := by
    intro number found here
    unfold Json.single at here
    split at here
    · assumption
    · cases here
  have vector (notScalar : literal.type ≠ .scalar)
      (saved : ofJson? (.record [(literal.type.tag, .array (literal.lanes.map Json.single))]) =
        some other) : literal.isFinite = true := by
    rw [ofJson?_vector notScalar] at saved
    obtain ⟨numbers, listed, _⟩ := Option.bind_eq_some_iff.1 saved
    apply List.all_eq_true.2
    intro number member
    obtain ⟨found, here⟩ := Json.exists_of_list?_map listed member
    exact lane number found here
  cases literal with
  | scalar x =>
      obtain ⟨found, here, _⟩ := Option.map_eq_some_iff.1 read
      simp [isFinite, lanes, lane x found here]
  | vec2 | vec3 | vec4 => exact vector (by simp [type]) read

theorem Kind.finite_of_ofJson?_toJson {kind other : Kind String}
    (read : ofJson? kind.toJson = some other) :
    ∀ literal ∈ kind.literals, literal.isFinite = true := by
  intro literal member
  have given (names : List String) := Json.fields?_record
    (List.nodup_cons.1 kind.distinct_fields).2 names
  unfold ofJson? at read
  split at read
  · rw [tagged?_toJson] at read
    cases kind with
    | constant value parameter =>
        obtain rfl := List.mem_singleton.1 member
        simp only [tag, ofFields?, given, List.map_cons, List.map_nil] at read
        simp only [fields, List.lookup_cons, Option.bind_eq_bind, Option.bind_eq_some_iff] at read
        obtain ⟨_, here, _⟩ := read
        exact Literal.isFinite_of_ofJson?_toJson here
    | functionInput name type default =>
        obtain rfl := Option.mem_toList.1 member
        have saved : (functionInput name type (some literal)).fields.lookup "default" =
            some literal.toJson := by
          simp [fields, List.lookup_append, List.lookup_cons]
        simp only [tag, ofFields?, given, List.map_cons, List.map_nil, saved,
          Option.bind_eq_bind, Option.bind_eq_some_iff] at read
        obtain ⟨_, _, _, _, _, _, _, atDefault, _⟩ := read
        obtain ⟨_, here, _⟩ := Option.map_eq_some_iff.1 atDefault
        exact Literal.isFinite_of_ofJson?_toJson here
    | _ => cases member
  · cases read

theorem Override.isFinite_of_ofJson?_toJson {override other : Override}
    (read : ofJson? override.toJson = some other) : override.value.isFinite = true := by
  rw [ofJson?, toJson, Json.fields?_record (by simp)] at read
  simp only [List.map_cons, List.map_nil, List.lookup_cons, Option.bind_eq_bind,
    Option.bind_eq_some_iff] at read
  obtain ⟨_, _, _, here, _⟩ := read
  exact Literal.isFinite_of_ofJson?_toJson here

theorem Entry.finite_of_ofJson?_toJson {entry other : Entry}
    (read : ofJson? entry.toJson = some other) :
    ∀ literal ∈ entry.literals, literal.isFinite = true := by
  obtain ⟨id, locked, name, kind, defaults⟩ := entry
  -- An empty list of defaults is left out, and has no literals.
  cases defaults with
  | nil =>
      rw [ofJson?, toJson, Json.fields?_record (by cases name <;> simp [optionalField])] at read
      simp only [List.isEmpty_nil, if_true, List.map_cons, List.map_nil, List.lookup_append,
        List.lookup_cons, lookup_optionalField, Option.bind_eq_bind,
        Option.bind_eq_some_iff] at read
      obtain ⟨_, _, _, _, _, _, _, atKind, _⟩ := read
      exact List.forall_mem_append.2
        ⟨Kind.finite_of_ofJson?_toJson atKind, fun _ member => absurd member List.not_mem_nil⟩
  | cons override rest =>
      rw [ofJson?, toJson, Json.fields?_record (by cases name <;> simp [optionalField])] at read
      simp only [List.isEmpty_cons, Bool.false_eq_true, if_false, List.map_cons, List.map_nil,
        List.lookup_append, List.lookup_cons, lookup_optionalField, Option.bind_eq_bind,
        Option.bind_eq_some_iff] at read
      obtain ⟨_, _, _, _, _, _, _, atKind, _, atDefaults, _⟩ := read
      refine List.forall_mem_append.2
        ⟨Kind.finite_of_ofJson?_toJson atKind, List.forall_mem_map.2 ?_⟩
      intro given member
      have listed : (Json.array ((override :: rest).map Override.toJson)).list? Override.ofJson? =
          some _ := atDefaults
      obtain ⟨_, here⟩ := Json.exists_of_list?_map listed member
      exact Override.isFinite_of_ofJson?_toJson here

namespace Description

theorem finite_of_ofJson?_toJson {description other : Description}
    (read : ofJson? description.toJson = some other) :
    ∀ literal ∈ description.literals, literal.isFinite = true := by
  rw [ofJson?, toJson, Json.fields?_record (by cases description.name <;> simp [optionalField])]
    at read
  simp only [List.map_cons, List.map_nil, List.lookup_append, List.lookup_cons,
    lookup_optionalField, Option.bind_eq_bind, Option.bind_eq_some_iff] at read
  obtain ⟨_, _, _, ofNodes, _⟩ := read
  intro literal member
  obtain ⟨entry, isEntry, atEntry⟩ := List.mem_flatMap.1 member
  obtain ⟨_, here⟩ := Json.exists_of_list?_map ofNodes isEntry
  exact Entry.finite_of_ofJson?_toJson here literal atEntry

/-- What is saved with a literal that is not finite cannot be loaded again. -/
theorem finite_of_read_write {description other : Description}
    (read : read description.write = .ok other) :
    ∀ literal ∈ description.literals, literal.isFinite = true := by
  rw [Description.read, write, Json.read?_pretty description.written_toJson,
    Option.bind_some] at read
  split at read
  · rename_i found
    exact finite_of_ofJson?_toJson found
  · cases read

end Description

theorem Single.printed_of_finite {number : Single} (finite : number.isFinite = true) :
    (∃ saved : Numeral, saved.Written ∧ Json.single number = .number saved) ∧
      ∃ printed : Numeral, printed.Written ∧ number.code = printed.text := by
  unfold Json.single code
  rw [if_pos finite, if_pos finite]
  exact ⟨⟨_, Layout.written_numeral _ number, rfl⟩, _, Layout.written_numeral _ number, rfl⟩

theorem Single.printed_of_infinity (negative : Bool) :
    Json.single (infinity negative) = .null ∧
      (infinity negative).code = if negative then "-inf" else "inf" := by
  cases negative <;> exact ⟨rfl, rfl⟩

namespace Description

/-- The literals of a text that is accepted. Each of their lanes is the number of a numeral of the
text. It is finite, and saved and printed as a numeral, unless that numeral is too large for the
32-bit format; then it is an infinity, which is saved as null and printed as a word. So all literals
are finite if no numeral of the text is too large; and if some are not, the description cannot be
loaded from what it is saved as. -/
theorem read_finite_unless_overflow {text : String} {description : Description}
    (accepted : read text = .ok description) :
    ∃ tokens, Json.tokens? text = some tokens ∧
      (∀ literal ∈ description.literals, ∀ number ∈ literal.lanes,
        ∃ numeral, .number numeral ∈ tokens ∧ numeral.single? = some number ∧
          ((numeral.overflows = false ∧ number.isFinite = true ∧
              (∃ saved : Numeral, saved.Written ∧ Json.single number = .number saved) ∧
              ∃ printed : Numeral, printed.Written ∧ number.code = printed.text) ∨
            (numeral.overflows = true ∧ number = .infinity numeral.negative ∧
              number.isFinite = false ∧ Json.single number = .null ∧
              number.code = if numeral.negative then "-inf" else "inf"))) ∧
      ((∀ numeral, .number numeral ∈ tokens → numeral.overflows = false) →
        ∀ literal ∈ description.literals, literal.isFinite = true) ∧
      ((∃ literal ∈ description.literals, literal.isFinite = false) →
        read description.write = .error .unreadable) := by
  obtain ⟨tokens, scanned, readFrom⟩ := readFrom_of_read accepted
  refine ⟨tokens, scanned, ?_, ?_, ?_⟩
  · intro literal isLiteral number lane
    obtain ⟨numeral, listed, here⟩ := readFrom literal isLiteral number lane
    refine ⟨numeral, listed, here, ?_⟩
    rcases Numeral.single?_cases here with ⟨inRange, finite⟩ | ⟨tooLarge, rfl⟩
    · exact .inl ⟨inRange, finite, Single.printed_of_finite finite⟩
    · obtain ⟨saved, printed⟩ := Single.printed_of_infinity numeral.negative
      exact .inr ⟨tooLarge, rfl, Single.isFinite_infinity numeral.negative, saved, printed⟩
  · intro inRange literal isLiteral
    apply List.all_eq_true.2
    intro number lane
    obtain ⟨numeral, listed, here⟩ := readFrom literal isLiteral number lane
    rcases Numeral.single?_cases here with ⟨_, finite⟩ | ⟨tooLarge, _⟩
    · exact finite
    · cases (inRange numeral listed).symm.trans tooLarge
  · rintro ⟨literal, isLiteral, infinite⟩
    cases again : read description.write with
    | ok other =>
        cases (finite_of_read_write again literal isLiteral).symm.trans infinite
    | error error =>
        unfold read at again
        split at again
        · cases again
        · exact again.symm

end Description

namespace Sample

def hugeText : String :=
  "\x7b\"nodes\":[\x7b\"id\":1,\"node\":\x7b\"kind\":\"constant\",\"value\":\x7b\"Scalar\":1e39\x7d\x7d\x7d]\x7d"

def huge : Description :=
  ⟨none, [⟨1, false, none, .constant (.scalar (.infinity false)) none, []⟩], []⟩

def hugeTokens : List Json.Token :=
  [.openBrace, .string (some "nodes"), .colon, .openBracket,
    .openBrace, .string (some "id"), .colon, .number ⟨false, [1], [], none⟩, .comma,
    .string (some "node"), .colon,
    .openBrace, .string (some "kind"), .colon, .string (some "constant"), .comma,
    .string (some "value"), .colon,
    .openBrace, .string (some "Scalar"), .colon, .number ⟨false, [1], [], some ⟨.absent, [3, 9]⟩⟩,
    .closeBrace, .closeBrace, .closeBrace, .closeBracket, .closeBrace]

theorem tokens?_hugeText : Json.tokens? hugeText = some hugeTokens := by cbv

theorem read_hugeText : Description.read hugeText = .ok huge := by
  unfold Description.read Json.read?
  rw [tokens?_hugeText]
  decide +kernel

end Sample

namespace Description

/-- A text with a literal that is not finite is accepted. It is saved as a text that is refused, and
shader code has no numeral for it. -/
theorem read_not_finite :
    read Sample.hugeText = .ok Sample.huge ∧
      Literal.scalar (.infinity false) ∈ Sample.huge.literals ∧
      (Literal.scalar (.infinity false)).isFinite = false ∧
      Json.single (.infinity false) = .null ∧ (Single.infinity false).code = "inf" :=
  ⟨Sample.read_hugeText, List.mem_singleton_self _, by decide, rfl, rfl⟩

theorem read_finite_unless_overflow_huge :
    read Sample.huge.write = .error .unreadable := by
  obtain ⟨_, _, _, _, refused⟩ := read_finite_unless_overflow Sample.read_hugeText
  exact refused ⟨.scalar (.infinity false), List.mem_singleton_self _, by decide⟩

end Description

end MaterialGraph
