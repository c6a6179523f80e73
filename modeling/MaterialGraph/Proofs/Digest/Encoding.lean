import MaterialGraph.Digest.Fingerprint
import MaterialGraph.Proofs.Lists

/-!
Encodings that can be told apart. Each piece of a node record, followed by whatever bytes, shows
where it ends and what it encodes. Texts do so while their length fits into eight bytes.
-/

set_option autoImplicit false

namespace MaterialGraph.Encoding

/-- Two encoded values of a domain, each followed by any bytes, give the same bytes only if the
values and what follows them are the same. -/
def Separates {Value : Type} (domain : Value → Prop) (encode : Value → List UInt8) : Prop :=
  ∀ ⦃left right : Value⦄, domain left → domain right → ∀ ⦃leftRest rightRest : List UInt8⦄,
    encode left ++ leftRest = encode right ++ rightRest → left = right ∧ leftRest = rightRest

def FitsLength (value : Nat) : Prop := value < Nat.pow 256 8

def FitsText (value : String) : Prop := FitsLength value.utf8ByteSize

theorem separates_littleEndian (count : Nat) :
    Separates (fun number => number < Nat.pow 256 count) (littleEndian count) := by
  induction count with
  | zero =>
      intro left right leftBound rightBound leftRest rightRest same
      have leftZero : left = 0 := by simpa using leftBound
      have rightZero : right = 0 := by simpa using rightBound
      exact ⟨leftZero.trans rightZero.symm, same⟩
  | succ count induction =>
      intro left right leftBound rightBound leftRest rightRest same
      obtain ⟨first, later⟩ := List.cons.inj same
      have digits : left % 256 = right % 256 := by
        have numbers := congrArg UInt8.toNat first
        simpa using numbers
      have power : Nat.pow 256 (count + 1) = 256 * Nat.pow 256 count := Nat.pow_succ'
      rw [power] at leftBound rightBound
      have quotients := induction (Nat.div_lt_of_lt_mul leftBound) (Nat.div_lt_of_lt_mul rightBound)
        later
      refine ⟨?_, quotients.2⟩
      have high := quotients.1
      omega

theorem separates_length : Separates FitsLength length := separates_littleEndian 8

theorem separates_word : Separates (fun _ => True) word := by
  intro left right _ _ leftRest rightRest same
  have numbers := separates_littleEndian 4 left.toNat_lt right.toNat_lt same
  exact ⟨UInt32.toNat_inj.1 numbers.1, numbers.2⟩

theorem separates_text : Separates FitsText text := by
  intro left right leftFits rightFits leftRest rightRest same
  unfold text at same
  simp only [List.append_assoc] at same
  have lengths := separates_length leftFits rightFits same
  have bytes := List.append_inj lengths.2 lengths.1
  have arrays : left.toUTF8 = right.toUTF8 := ByteArray.ext (Array.toList_inj.1 bytes.1)
  exact ⟨String.toByteArray_inj.1 arrays, bytes.2⟩

/-- Encoded values one after another, where it is known how many there are. -/
theorem separates_flatMap {Value : Type} {domain : Value → Prop} {encode : Value → List UInt8}
    (separates : Separates domain encode) {left right : List Value}
    (leftDomain : ∀ value ∈ left, domain value) (rightDomain : ∀ value ∈ right, domain value)
    (lengths : left.length = right.length) {leftRest rightRest : List UInt8}
    (same : left.flatMap encode ++ leftRest = right.flatMap encode ++ rightRest) :
    left = right ∧ leftRest = rightRest := by
  induction left generalizing right with
  | nil =>
      cases right with
      | nil => exact ⟨rfl, same⟩
      | cons first rest => cases lengths
  | cons first rest induction =>
      cases right with
      | nil => cases lengths
      | cons other others =>
          rw [List.flatMap_cons, List.flatMap_cons, List.append_assoc, List.append_assoc] at same
          have heads := separates (leftDomain first List.mem_cons_self)
            (rightDomain other List.mem_cons_self) same
          have tails := induction
            (fun value member => leftDomain value (List.mem_cons_of_mem _ member))
            (fun value member => rightDomain value (List.mem_cons_of_mem _ member))
            (Nat.succ.inj lengths) heads.2
          exact ⟨congrArg₂ List.cons heads.1 tails.1, tails.2⟩

theorem separates_field {Value : Type} {domain : Value → Prop} {encode : Value → List UInt8}
    (separates : Separates domain encode) :
    Separates (fun value => ∀ given, value = some given → domain given) (field encode) := by
  intro left right leftDomain rightDomain leftRest rightRest same
  cases left with
  | none =>
      cases right with
      | none => exact ⟨rfl, (List.cons.inj same).2⟩
      | some other => cases (List.cons.inj same).1
  | some value =>
      cases right with
      | none => cases (List.cons.inj same).1
      | some other =>
          have values := separates (leftDomain value rfl) (rightDomain other rfl)
            (List.cons.inj same).2
          exact ⟨congrArg some values.1, values.2⟩

theorem separates_property {Value : Type} {domain : Value → Prop} {encode : Value → List UInt8}
    (separates : Separates domain encode) {left right : Option Value}
    (leftDomain : ∀ given, left = some given → domain given)
    (rightDomain : ∀ given, right = some given → domain given) {leftRest rightRest : List UInt8}
    (same : property encode left ++ 0 :: leftRest = property encode right ++ 0 :: rightRest) :
    left = right ∧ leftRest = rightRest := by
  cases left with
  | none =>
      cases right with
      | none => exact ⟨rfl, (List.cons.inj same).2⟩
      | some other => cases (List.cons.inj same).1
  | some value =>
      cases right with
      | none => cases (List.cons.inj same).1
      | some other =>
          have values := separates (leftDomain value rfl) (rightDomain other rfl)
            (List.cons.inj same).2
          exact ⟨congrArg some values.1, (List.cons.inj values.2).2⟩

theorem separates_index {Value : Type} {index : Value → Nat}
    (distinct : ∀ left right, UInt32.ofNat (index left) = UInt32.ofNat (index right) →
      left = right) : Separates (fun _ => True) fun value => word (UInt32.ofNat (index value)) := by
  intro left right _ _ leftRest rightRest same
  have indexes := separates_word trivial trivial same
  exact ⟨distinct left right indexes.1, indexes.2⟩

theorem separates_type : Separates (fun _ => True) type := by
  apply separates_index
  intro left right
  cases left <;> cases right <;> decide

theorem separates_op :
    Separates (fun _ => True) fun op : MathOp => word (UInt32.ofNat op.index) := by
  apply separates_index
  intro left right
  cases left <;> cases right <;> decide

theorem separates_block :
    Separates (fun _ => True) fun block : Block => word (UInt32.ofNat block.index) := by
  apply separates_index
  intro left right
  cases left <;> cases right <;> decide

theorem separates_single : Separates (fun _ => True) single := by
  intro left right _ _ leftRest rightRest same
  have bits := separates_word trivial trivial same
  exact ⟨congrArg Single.mk bits.1, bits.2⟩

theorem separates_literal : Separates (fun _ => True) literal := by
  intro left right _ _ leftRest rightRest same
  unfold literal at same
  simp only [List.append_assoc] at same
  have types := separates_type trivial trivial same
  have counts : left.lanes.length = right.lanes.length := by
    have widths := congrArg ValueType.lanes? types.1
    rw [Literal.lanes_length, Literal.lanes_length] at widths
    exact Option.some.inj widths
  have lanes := separates_flatMap separates_single (fun _ _ => trivial) (fun _ _ => trivial) counts
    types.2
  refine ⟨?_, lanes.2⟩
  have read := Literal.ofLanes?_lanes left
  rw [types.1, lanes.1, Literal.ofLanes?_lanes right] at read
  exact (Option.some.inj read).symm

theorem separates_binding : Separates (fun _ => True) binding := by
  intro left right _ _ leftRest rightRest same
  unfold binding at same
  simp only [List.append_assoc] at same
  have nodes := separates_word trivial trivial same
  have outputs := separates_word trivial trivial nodes.2
  exact ⟨congrArg₂ Binding.mk nodes.1 outputs.1, outputs.2⟩

theorem separates_input : Separates (fun _ => True) input := by
  intro left right _ _ leftRest rightRest same
  unfold input at same
  simp only [List.append_assoc] at same
  have slots := separates_word trivial trivial same
  have bindings := separates_field separates_binding (fun _ _ => trivial) (fun _ _ => trivial)
    slots.2
  have defaults := separates_field separates_literal (fun _ _ => trivial) (fun _ _ => trivial)
    bindings.2
  refine ⟨?_, defaults.2⟩
  cases left
  cases right
  exact InputRecord.mk.injEq .. ▸ ⟨slots.1, bindings.1, defaults.1⟩

theorem bytesOfWord_injective {left right : UInt32}
    (same : Digest.bytesOfWord left = Digest.bytesOfWord right) : left = right := by
  simp only [Digest.bytesOfWord, List.cons.injEq, and_true] at same
  obtain ⟨first, second, third, fourth⟩ := same
  have numbers : ∀ {word other : UInt32}, word.toUInt8 = other.toUInt8 →
      word.toNat % 256 = other.toNat % 256 := by
    intro word other equal
    simpa using congrArg UInt8.toNat equal
  have first := numbers first
  have second := numbers second
  have third := numbers third
  have fourth := numbers fourth
  have leftBound := left.toNat_lt
  have rightBound := right.toNat_lt
  simp only [UInt32.toNat_shiftRight, Nat.shiftRight_eq_div_pow, UInt32.reduceToNat,
    Nat.reduceMod, Nat.reducePow] at first second third
  apply UInt32.toNat_inj.1
  omega

theorem separates_digest : Separates (fun _ => True) Digest.bytes := by
  intro left right _ _ leftRest rightRest same
  have split := List.append_inj same (by rw [Digest.bytes_length, Digest.bytes_length])
  refine ⟨?_, split.2⟩
  have words : left.words = right.words := by
    have spread : left.words.flatMap Digest.bytesOfWord ++ [] =
        right.words.flatMap Digest.bytesOfWord ++ [] := by
      rw [List.append_nil, List.append_nil]
      exact split.1
    have separates : Separates (fun _ => True) Digest.bytesOfWord := by
      intro word other _ _ wordRest otherRest equal
      have parts := List.append_inj equal rfl
      exact ⟨bytesOfWord_injective parts.1, parts.2⟩
    have lengths : left.words.length = right.words.length := rfl
    exact (separates_flatMap separates (fun _ _ => trivial) (fun _ _ => trivial) lengths spread).1
  cases left
  cases right
  simp only [Digest.words, List.cons.injEq, and_true] at words
  exact Digest.mk.injEq .. ▸ words

end MaterialGraph.Encoding
