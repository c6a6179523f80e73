import MaterialGraph.Proofs.Digest.Encoding

/-!
Streams of node records. The name of a placeholder writes nothing when it is absent, so that where
a record ends is not always seen from the record alone. It is seen from what follows: identifiers
ascend, every kind has a tag, and kinds have their numbers of inputs.
-/

set_option autoImplicit false

namespace MaterialGraph

namespace Kind

variable {Target : Type}

def texts : Kind String → List String
  | constant _ parameter => parameter.toList
  | textureRef name source => name :: source.toList
  | functionInput name _ _ => name.toList
  | functionOutput name _ => name.toList
  | call path => [path]
  | _ => []

/-- The number of inputs of a kind; calls have those of what they call. -/
def arity? : Kind Target → Option Nat
  | constant _ _ => some 0
  | textureRef _ _ => some 0
  | textureSample => some 3
  | math op => some op.operandNames.length
  | output block => some block.ports.length
  | functionInput _ _ _ => some 0
  | functionOutput _ _ => some 1
  | call _ => none

end Kind

def longText : Nat := 16777216

namespace NodeRecord

/-- A record as the node of a wired graph gives it, without long texts. -/
structure Proper (record : NodeRecord) : Prop where
  callee : (∀ path, record.kind ≠ .call path) → record.callee = none
  inputs : ∀ count, record.kind.arity? = some count → record.inputs.length = count
  fits : Encoding.FitsLength record.inputs.length
  texts : ∀ text ∈ record.kind.texts, text.utf8ByteSize < longText

end NodeRecord

namespace Encoding

theorem fitsLength_of_lt {value : Nat} (short : value < longText) : FitsLength value :=
  Nat.lt_trans short (by decide)

theorem fitsText {record : NodeRecord} (proper : record.Proper) {text : String}
    (member : text ∈ record.kind.texts) : FitsText text :=
  fitsLength_of_lt (proper.texts text member)

theorem short_of_mem {property : Option String}
    (short : ∀ text ∈ property.toList, text.utf8ByteSize < longText) :
    ∀ given, property = some given → given.utf8ByteSize < longText := by
  intro given present
  apply short
  rw [present]
  exact List.mem_cons_self

theorem fits_of_short {property : Option String}
    (short : ∀ text ∈ property.toList, text.utf8ByteSize < longText) :
    ∀ given, property = some given → FitsText given :=
  fun given present => fitsLength_of_lt (short_of_mem short given present)

def ending (record : NodeRecord) : List UInt8 :=
  field Digest.bytes record.callee ++
    (length record.inputs.length ++ record.inputs.flatMap input)

theorem node_append (record : NodeRecord) (rest : List UInt8) :
    node record ++ rest = word record.id ++ (if record.isRoot then 1 else 0) ::
      (text record.kind.tag ++ (kindFields record.kind ++ (ending record ++ rest))) := by
  simp [node, kind, ending]

theorem ending_append {record : NodeRecord} (proper : record.Proper)
    (notCall : ∀ path, record.kind ≠ .call path) (rest : List UInt8) :
    ending record ++ rest =
      0 :: (length record.inputs.length ++ (record.inputs.flatMap input ++ rest)) := by
  simp [ending, proper.callee notCall, field]

theorem ending_append_of_arity {record : NodeRecord} (proper : record.Proper)
    {count : Nat} (arity : record.kind.arity? = some count) (rest : List UInt8) :
    ending record ++ rest = 0 :: (length count ++ (record.inputs.flatMap input ++ rest)) := by
  have notCall : ∀ path, record.kind ≠ .call path := by
    intro path isCall
    rw [isCall] at arity
    cases arity
  rw [ending_append proper notCall, proper.inputs count arity]

/-- What may follow a record: nothing, or a record with a greater identifier. -/
def Follows (id : NodeId) (rest : List UInt8) : Prop :=
  rest = [] ∨ ∃ record more, id < record.id ∧ record.Proper ∧ rest = node record ++ more

theorem Follows.word_ne_zero {id : NodeId} {rest after : List UInt8} (follows : Follows id rest) :
    rest ≠ 0 :: 0 :: 0 :: 0 :: after := by
  intro zeros
  rcases follows with rfl | ⟨record, more, above, _, rfl⟩
  · cases zeros
  · rw [node_append] at zeros
    have id : record.id = 0 := (separates_word trivial trivial zeros).1
    rw [id] at above
    exact absurd above (by simp)

theorem length_eq_zero {count : Nat} (short : count < longText) {rest other : List UInt8}
    (same : length count ++ rest = 0 :: 0 :: 0 :: other) :
    count = 0 ∧ other = 0 :: 0 :: 0 :: 0 :: 0 :: rest := by
  unfold length at same
  simp only [littleEndian, List.cons_append, List.nil_append, List.cons.injEq] at same
  obtain ⟨first, second, third, others⟩ := same
  have first := congrArg UInt8.toNat first
  have second := congrArg UInt8.toNat second
  have third := congrArg UInt8.toNat third
  simp only [UInt8.toNat_ofNat', UInt8.toNat_zero, Nat.reducePow, Nat.mod_mod] at first second third
  have zero : count = 0 := by
    unfold longText at short
    omega
  subst zero
  exact ⟨rfl, others.symm⟩

theorem text_of_zeros {value : String} (short : value.utf8ByteSize < longText)
    {rest other : List UInt8} (same : text value ++ rest = 0 :: 0 :: 0 :: other) :
    other = 0 :: 0 :: 0 :: 0 :: 0 :: rest := by
  unfold text at same
  simp only [List.append_assoc] at same
  have zeros := length_eq_zero short same
  have empty : value.toUTF8.data.toList = [] := List.eq_nil_of_length_eq_zero zeros.1
  rw [zeros.2, empty, List.nil_append]

theorem getElem?_after_lanes (value : Literal) (rest : List UInt8) {position : Nat}
    (low : 4 * value.lanes.length ≤ position) (high : position < 4 * value.lanes.length + 9) :
    (value.lanes.flatMap single ++ 0 :: (length 0 ++ rest))[position]? = some 0 := by
  have counted : (value.lanes.flatMap single).length = 4 * value.lanes.length := by
    rw [List.length_flatMap]
    cases value <;> rfl
  rw [List.getElem?_append_right (counted ▸ low), counted]
  obtain ⟨offset, rfl⟩ := Nat.exists_eq_add_of_le low
  have small : offset < 9 := by omega
  have zeros : 0 :: (length 0 ++ rest) = List.replicate 9 0 ++ rest := rfl
  rw [Nat.add_sub_cancel_left, zeros, List.getElem?_append_left (by simpa using small),
    List.getElem?_replicate_of_lt small]

theorem text_tag (kind : Kind String) : text kind.tag =
    match kind with
    | .constant _ _ => [8, 0, 0, 0, 0, 0, 0, 0, 99, 111, 110, 115, 116, 97, 110, 116]
    | .textureRef _ _ =>
        [11, 0, 0, 0, 0, 0, 0, 0, 116, 101, 120, 116, 117, 114, 101, 95, 114, 101, 102]
    | .textureSample =>
        [14, 0, 0, 0, 0, 0, 0, 0, 116, 101, 120, 116, 117, 114, 101, 95, 115, 97, 109, 112, 108,
          101]
    | .math _ => [4, 0, 0, 0, 0, 0, 0, 0, 109, 97, 116, 104]
    | .output _ => [6, 0, 0, 0, 0, 0, 0, 0, 111, 117, 116, 112, 117, 116]
    | .functionInput _ _ _ =>
        [14, 0, 0, 0, 0, 0, 0, 0, 102, 117, 110, 99, 116, 105, 111, 110, 95, 105, 110, 112, 117,
          116]
    | .functionOutput _ _ =>
        [15, 0, 0, 0, 0, 0, 0, 0, 102, 117, 110, 99, 116, 105, 111, 110, 95, 111, 117, 116, 112,
          117, 116]
    | .call _ =>
        [13, 0, 0, 0, 0, 0, 0, 0, 102, 117, 110, 99, 116, 105, 111, 110, 95, 99, 97, 108, 108] := by
  cases kind <;> simp only [Kind.tag] <;> rfl

/-- A tag and what follows it is no literal of a placeholder that ends there. -/
theorem tag_ne_lanes {record : NodeRecord} (proper : record.Proper) {value : Literal}
    {more rest : List UInt8} {id : NodeId} (follows : Follows id rest)
    (same : text record.kind.tag ++ (kindFields record.kind ++ (ending record ++ more)) =
      value.lanes.flatMap single ++ 0 :: (length 0 ++ rest)) : False := by
  have zero : ∀ position, 4 * value.lanes.length ≤ position →
      position < 4 * value.lanes.length + 9 →
      (text record.kind.tag ++ (kindFields record.kind ++ (ending record ++ more)))[position]? =
        some 0 := by
    intro position low high
    rw [same]
    exact getElem?_after_lanes value rest low high
  have many : 3 ≤ value.lanes.length := by
    by_contra few
    have positive : 1 ≤ value.lanes.length := by cases value <;> simp [Literal.lanes]
    have letter := zero 8 (by omega) (by omega)
    rw [text_tag] at letter
    cases kind : record.kind <;> simp [kind] at letter
  have width : value.lanes.length ≤ 4 := by cases value <;> simp [Literal.lanes]
  have sixteenth := zero 16 (by omega) (by omega)
  have seventeenth := zero 17 (by omega) (by omega)
  have nineteenth := zero 19 (by omega) (by omega)
  rw [text_tag] at sixteenth seventeenth nineteenth
  cases kind : record.kind with
  | textureRef _ _ | textureSample | functionInput _ _ _ | functionOutput _ _ | call _ =>
      simp [kind] at sixteenth
  | math op =>
      have arity : record.kind.arity? = some op.operandNames.length := by rw [kind]; rfl
      rw [ending_append_of_arity proper arity] at seventeenth
      simp [kind, kindFields, word, littleEndian, length] at seventeenth
      cases op <;> simp [MathOp.operandNames] at seventeenth
  | output block =>
      have arity : record.kind.arity? = some block.ports.length := by rw [kind]; rfl
      rw [ending_append_of_arity proper arity] at nineteenth
      simp [kind, kindFields, word, littleEndian, length] at nineteenth
      cases block <;> simp [Block.ports] at nineteenth
  | constant inner parameter =>
      have arity : record.kind.arity? = some 0 := by rw [kind]; rfl
      cases value with
      | scalar _ | vec2 _ _ => simp [Literal.lanes] at many
      | vec3 _ _ _ =>
          have letter := zero 12 (by simp [Literal.lanes]) (by simp [Literal.lanes])
          rw [text_tag] at letter
          simp [kind] at letter
      | vec4 _ _ _ _ =>
          have tail := (List.append_inj same (by rw [kind]; rfl)).2
          rw [ending_append_of_arity proper arity, kind] at tail
          unfold kindFields at tail
          rw [List.append_assoc] at tail
          have fields : inner = .scalar ⟨0⟩ ∧ property text parameter ++
              0 :: (length 0 ++ (record.inputs.flatMap input ++ more)) = 0 :: rest :=
            separates_literal trivial trivial tail
          have named : ∀ given, parameter = some given → FitsText given := by
            intro given present
            apply fitsText proper
            rw [kind, present]
            exact List.mem_cons_self
          have unnamed : ∀ given, none = some given → FitsText given := by simp
          have parameters := separates_property separates_text named unnamed fields.2
          exact follows.word_ne_zero parameters.2.symm

/-- After the record of an unnamed placeholder for a pair, no default and end can stand that would
make the pair a name. -/
theorem not_follows_default {id other : NodeId} {leftRest rightRest : List UInt8}
    (leftFollows : Follows id leftRest) (rightFollows : Follows other rightRest)
    (default : Option Literal) :
    leftRest ≠ property literal default ++ 0 :: (length 0 ++ rightRest) := by
  intro same
  cases default with
  | none => exact leftFollows.word_ne_zero same
  | some value =>
      rcases leftFollows with rfl | ⟨record, more, _, proper, rfl⟩
      · cases same
      · rw [node_append] at same
        -- The identifier, with its root flag, covers the type of the literal.
        have tail := congrArg (List.drop 5) same
        exact tag_ne_lanes proper rightFollows tail

theorem unnamed_ne_named {id other : NodeId} {leftRest rightRest : List UInt8}
    (leftFollows : Follows id leftRest) (rightFollows : Follows other rightRest)
    {name : String} (short : name.utf8ByteSize < longText) {leftType rightType : ValueType}
    {leftDefault rightDefault : Option Literal} :
    type leftType ++ (property literal leftDefault ++ 0 :: (length 0 ++ leftRest)) ≠
      1 :: (text name ++
        (type rightType ++ (property literal rightDefault ++ 0 :: (length 0 ++ rightRest)))) := by
  intro same
  cases leftType with
  | vec2 =>
      have zeros := text_of_zeros short (List.cons.inj same).2.symm
      have defaults : leftDefault = none ∧ _ := separates_property separates_literal
        (fun _ _ => trivial) (fun _ _ => trivial) zeros
      have types : .scalar = rightType ∧ leftRest = _ :=
        separates_type trivial trivial (congrArg (List.drop 4) defaults.2)
      exact not_follows_default leftFollows rightFollows rightDefault types.2
  | scalar | vec3 | vec4 | texture => cases (List.cons.inj same).1

theorem unnamedOutput_ne_named {name : String} (short : name.utf8ByteSize < longText)
    {leftTypes rightTypes : List ValueType} (leftFew : leftTypes.length ≤ 5)
    (rightFew : rightTypes.length ≤ 5) {leftRest rightRest : List UInt8} :
    length leftTypes.length ++ (leftTypes.flatMap type ++ 0 :: (length 1 ++ leftRest)) ≠
      1 :: (text name ++ (length rightTypes.length ++ rightRest)) := by
  intro same
  have one : leftTypes.length = 1 := by
    have first := congrArg UInt8.toNat (List.cons.inj same).1
    simp only [UInt8.toNat_ofNat', UInt8.toNat_one, Nat.reducePow, Nat.mod_mod] at first
    omega
  obtain ⟨only, rfl⟩ := List.length_eq_one_iff.1 one
  rw [List.flatMap_singleton, List.length_singleton] at same
  have zeros : 0 :: 0 :: 0 :: 0 :: (type only ++ 0 :: (length 1 ++ leftRest)) = _ :=
    text_of_zeros short (List.cons.inj same).2.symm
  cases only with
  | scalar =>
      have few : rightTypes.length < longText := Nat.lt_of_le_of_lt rightFew (by decide)
      have counts : _ ∧ 0 :: (length 1 ++ leftRest) = _ :=
        length_eq_zero few (congrArg (List.drop 5) zeros).symm
      cases (List.cons.inj (List.cons.inj counts.2).2).1
  | vec2 | vec3 | vec4 | texture => cases (List.cons.inj (congrArg (List.drop 4) zeros)).1

inductive Alike : Kind String → Kind String → Prop
  | constant (value other : Literal) (parameter parameter' : Option String) :
      Alike (.constant value parameter) (.constant other parameter')
  | textureRef (name other : String) (source source' : Option String) :
      Alike (.textureRef name source) (.textureRef other source')
  | textureSample : Alike .textureSample .textureSample
  | math (op other : MathOp) : Alike (.math op) (.math other)
  | output (block other : Block) : Alike (.output block) (.output other)
  | functionInput (name other : Option String) (type type' : ValueType)
      (default default' : Option Literal) :
      Alike (.functionInput name type default) (.functionInput other type' default')
  | functionOutput (name other : Option String) (accepts accepts' : TypeSet) :
      Alike (.functionOutput name accepts) (.functionOutput other accepts')
  | call (path other : String) : Alike (.call path) (.call other)

theorem alike_of_tag {left right : Kind String} (same : left.tag = right.tag) :
    Alike left right := by
  cases left <;> cases right <;> first | constructor | simp [Kind.tag] at same

theorem ending_append_of_none {record : NodeRecord} (proper : record.Proper)
    (arity : record.kind.arity? = some 0) (rest : List UInt8) :
    ending record ++ rest = 0 :: (length 0 ++ rest) := by
  rw [ending_append_of_arity proper arity,
    List.eq_nil_of_length_eq_zero (proper.inputs 0 arity)]
  rfl

theorem functionInput_inj {left right : Option String} {leftType rightType : ValueType}
    {leftDefault rightDefault : Option Literal}
    (leftShort : ∀ name, left = some name → name.utf8ByteSize < longText)
    (rightShort : ∀ name, right = some name → name.utf8ByteSize < longText)
    {id other : NodeId} {leftRest rightRest : List UInt8} (leftFollows : Follows id leftRest)
    (rightFollows : Follows other rightRest)
    (same : kindFields (.functionInput left leftType leftDefault) ++ 0 :: (length 0 ++ leftRest) =
      kindFields (.functionInput right rightType rightDefault) ++ 0 :: (length 0 ++ rightRest)) :
    (left = right ∧ leftType = rightType ∧ leftDefault = rightDefault) ∧ leftRest = rightRest := by
  -- Once the names agree, what follows them shows where it ends.
  have unnamed : type leftType ++ (property literal leftDefault ++ 0 :: (length 0 ++ leftRest)) =
      type rightType ++ (property literal rightDefault ++ 0 :: (length 0 ++ rightRest)) →
      (leftType = rightType ∧ leftDefault = rightDefault) ∧ leftRest = rightRest := by
    intro equal
    have types := separates_type trivial trivial equal
    have defaults := separates_property separates_literal (fun _ _ => trivial) (fun _ _ => trivial)
      types.2
    exact ⟨⟨types.1, defaults.1⟩, List.append_cancel_left defaults.2⟩
  unfold kindFields at same
  simp only [List.append_assoc] at same
  cases left with
  | none =>
      cases right with
      | none =>
          have agreed := unnamed same
          exact ⟨⟨rfl, agreed.1⟩, agreed.2⟩
      | some name =>
          exact absurd same (unnamed_ne_named leftFollows rightFollows (rightShort name rfl))
  | some leftName =>
      cases right with
      | none =>
          exact absurd same.symm
            (unnamed_ne_named rightFollows leftFollows (leftShort leftName rfl))
      | some rightName =>
          have names := separates_text (fitsLength_of_lt (leftShort leftName rfl))
            (fitsLength_of_lt (rightShort rightName rfl)) (List.cons.inj same).2
          have agreed := unnamed names.2
          exact ⟨⟨congrArg some names.1, agreed.1⟩, agreed.2⟩

theorem length_toList_le (set : TypeSet) : set.toList.length ≤ 5 :=
  List.length_filter_le _ ValueType.all

theorem functionOutput_inj {left right : Option String} {leftAccepts rightAccepts : TypeSet}
    (leftShort : ∀ name, left = some name → name.utf8ByteSize < longText)
    (rightShort : ∀ name, right = some name → name.utf8ByteSize < longText)
    {leftRest rightRest : List UInt8}
    (same : kindFields (.functionOutput left leftAccepts) ++ 0 :: (length 1 ++ leftRest) =
      kindFields (.functionOutput right rightAccepts) ++ 0 :: (length 1 ++ rightRest)) :
    (left = right ∧ leftAccepts = rightAccepts) ∧ leftRest = rightRest := by
  have fits : ∀ set : TypeSet, FitsLength set.toList.length := fun set =>
    fitsLength_of_lt (Nat.lt_of_le_of_lt (length_toList_le set) (by decide))
  have unnamed : length leftAccepts.toList.length ++
        (leftAccepts.toList.flatMap type ++ 0 :: (length 1 ++ leftRest)) =
      length rightAccepts.toList.length ++
        (rightAccepts.toList.flatMap type ++ 0 :: (length 1 ++ rightRest)) →
      leftAccepts = rightAccepts ∧ leftRest = rightRest := by
    intro equal
    have counts := separates_length (fits leftAccepts) (fits rightAccepts) equal
    have types := separates_flatMap separates_type (fun _ _ => trivial) (fun _ _ => trivial)
      counts.1 counts.2
    refine ⟨?_, List.append_cancel_left (List.cons.inj types.2).2⟩
    rw [← leftAccepts.ofList_toList, types.1, rightAccepts.ofList_toList]
  unfold kindFields at same
  simp only [List.append_assoc] at same
  cases left with
  | none =>
      cases right with
      | none =>
          have agreed := unnamed same
          exact ⟨⟨rfl, agreed.1⟩, agreed.2⟩
      | some name =>
          exact absurd same (unnamedOutput_ne_named (rightShort name rfl) (length_toList_le _)
            (length_toList_le _))
  | some leftName =>
      cases right with
      | none =>
          exact absurd same.symm (unnamedOutput_ne_named (leftShort leftName rfl)
            (length_toList_le _) (length_toList_le _))
      | some rightName =>
          have names := separates_text (fitsLength_of_lt (leftShort leftName rfl))
            (fitsLength_of_lt (rightShort rightName rfl)) (List.cons.inj same).2
          have agreed := unnamed names.2
          exact ⟨⟨congrArg some names.1, agreed.1⟩, agreed.2⟩

theorem kind_inj {left right : NodeRecord} (leftProper : left.Proper) (rightProper : right.Proper)
    {id other : NodeId} {leftRest rightRest : List UInt8} (leftFollows : Follows id leftRest)
    (rightFollows : Follows other rightRest) (tags : left.kind.tag = right.kind.tag)
    (same : kindFields left.kind ++ (ending left ++ leftRest) =
      kindFields right.kind ++ (ending right ++ rightRest)) :
    left.kind = right.kind ∧ ending left ++ leftRest = ending right ++ rightRest := by
  have alike := alike_of_tag tags
  have leftShort := leftProper.texts
  have rightShort := rightProper.texts
  obtain ⟨leftId, leftRoot, leftKind, leftCallee, leftInputs⟩ := left
  obtain ⟨rightId, rightRoot, rightKind, rightCallee, rightInputs⟩ := right
  cases alike with
  | constant value other parameter parameter' =>
      rw [ending_append_of_none leftProper rfl, ending_append_of_none rightProper rfl] at same ⊢
      unfold kindFields at same
      rw [List.append_assoc, List.append_assoc] at same
      have values := separates_literal trivial trivial same
      have parameters := separates_property separates_text (fits_of_short leftShort)
        (fits_of_short rightShort) values.2
      exact ⟨congrArg₂ Kind.constant values.1 parameters.1, congrArg (List.cons 0) parameters.2⟩
  | textureRef name other source source' =>
      rw [ending_append_of_none leftProper rfl, ending_append_of_none rightProper rfl] at same ⊢
      unfold kindFields at same
      rw [List.append_assoc, List.append_assoc] at same
      have names := separates_text (fitsText leftProper List.mem_cons_self)
        (fitsText rightProper List.mem_cons_self) same
      have sources := separates_property separates_text
        (fits_of_short fun text member => leftShort text (List.mem_cons_of_mem _ member))
        (fits_of_short fun text member => rightShort text (List.mem_cons_of_mem _ member)) names.2
      exact ⟨congrArg₂ Kind.textureRef names.1 sources.1, congrArg (List.cons 0) sources.2⟩
  | textureSample => exact ⟨rfl, same⟩
  | math op other =>
      have ops := separates_op trivial trivial same
      exact ⟨congrArg Kind.math ops.1, ops.2⟩
  | output block other =>
      have blocks := separates_block trivial trivial same
      exact ⟨congrArg Kind.output blocks.1, blocks.2⟩
  | functionInput name other type type' default default' =>
      rw [ending_append_of_none leftProper rfl, ending_append_of_none rightProper rfl] at same ⊢
      have placeholders := functionInput_inj (short_of_mem leftShort) (short_of_mem rightShort)
        leftFollows rightFollows same
      obtain ⟨⟨rfl, rfl, rfl⟩, rfl⟩ := placeholders
      exact ⟨rfl, rfl⟩
  | functionOutput name other accepts accepts' =>
      rw [ending_append_of_arity leftProper rfl, ending_append_of_arity rightProper rfl] at same ⊢
      have placeholders :=
        functionOutput_inj (short_of_mem leftShort) (short_of_mem rightShort) same
      obtain ⟨⟨rfl, rfl⟩, rests⟩ := placeholders
      exact ⟨rfl, by rw [rests]⟩
  | call path other =>
      have paths := separates_text (fitsText leftProper List.mem_cons_self)
        (fitsText rightProper List.mem_cons_self) same
      exact ⟨congrArg Kind.call paths.1, paths.2⟩

theorem ending_inj {left right : NodeRecord} (leftProper : left.Proper)
    (rightProper : right.Proper) {leftRest rightRest : List UInt8}
    (same : ending left ++ leftRest = ending right ++ rightRest) :
    (left.callee = right.callee ∧ left.inputs = right.inputs) ∧ leftRest = rightRest := by
  unfold ending at same
  simp only [List.append_assoc] at same
  have callees := separates_field separates_digest (fun _ _ => trivial) (fun _ _ => trivial) same
  have counts := separates_length leftProper.fits rightProper.fits callees.2
  have inputs := separates_flatMap separates_input (fun _ _ => trivial) (fun _ _ => trivial)
    counts.1 counts.2
  exact ⟨⟨callees.1, inputs.1⟩, inputs.2⟩

/-- A record shows where it ends when records with greater identifiers follow it. -/
theorem node_inj {left right : NodeRecord} (leftProper : left.Proper) (rightProper : right.Proper)
    {leftRest rightRest : List UInt8} (leftFollows : Follows left.id leftRest)
    (rightFollows : Follows right.id rightRest)
    (same : node left ++ leftRest = node right ++ rightRest) :
    left = right ∧ leftRest = rightRest := by
  rw [node_append, node_append] at same
  have ids := separates_word trivial trivial same
  have flags : left.isRoot = right.isRoot := by
    have flag := (List.cons.inj ids.2).1
    cases leftRoot : left.isRoot <;> cases rightRoot : right.isRoot <;>
      simp [leftRoot, rightRoot] at flag <;> rfl
  have fits : ∀ kind : Kind String, FitsText kind.tag := by
    intro kind
    apply fitsLength_of_lt
    cases kind <;> simp only [Kind.tag] <;> decide
  have tags := separates_text (fits left.kind) (fits right.kind) (List.cons.inj ids.2).2
  have kinds := kind_inj leftProper rightProper leftFollows rightFollows tags.1 tags.2
  have endings := ending_inj leftProper rightProper kinds.2
  refine ⟨?_, endings.2⟩
  cases left
  cases right
  exact NodeRecord.mk.injEq .. ▸ ⟨ids.1, flags, kinds.1, endings.1⟩

theorem node_ne_nil (record : NodeRecord) : node record ≠ [] := by
  unfold node word
  simp [littleEndian]

theorem follows_flatMap {record : NodeRecord} {records : List NodeRecord}
    (ascending : ∀ other ∈ records, record.id < other.id)
    (proper : ∀ other ∈ records, other.Proper) : Follows record.id (records.flatMap node) := by
  cases records with
  | nil => exact Or.inl rfl
  | cons next rest =>
      exact Or.inr ⟨next, rest.flatMap node, ascending next List.mem_cons_self,
        proper next List.mem_cons_self, List.flatMap_cons⟩

theorem flatMap_node_inj {left right : List NodeRecord}
    (leftAscending : left.Pairwise fun record other => record.id < other.id)
    (rightAscending : right.Pairwise fun record other => record.id < other.id)
    (leftProper : ∀ record ∈ left, record.Proper) (rightProper : ∀ record ∈ right, record.Proper)
    (same : left.flatMap node = right.flatMap node) : left = right := by
  induction left generalizing right with
  | nil =>
      cases right with
      | nil => rfl
      | cons other others =>
          rw [List.flatMap_cons] at same
          exact absurd (List.append_eq_nil_iff.1 same.symm).1 (node_ne_nil other)
  | cons first rest induction =>
      cases right with
      | nil =>
          rw [List.flatMap_cons] at same
          exact absurd (List.append_eq_nil_iff.1 same).1 (node_ne_nil first)
      | cons other others =>
          rw [List.flatMap_cons, List.flatMap_cons] at same
          rw [List.pairwise_cons] at leftAscending rightAscending
          rw [List.forall_mem_cons] at leftProper rightProper
          have heads := node_inj leftProper.1 rightProper.1
            (follows_flatMap leftAscending.1 leftProper.2)
            (follows_flatMap rightAscending.1 rightProper.2) same
          have tails :=
            induction leftAscending.2 rightAscending.2 leftProper.2 rightProper.2 heads.2
          exact congrArg₂ List.cons heads.1 tails

end Encoding

end MaterialGraph
