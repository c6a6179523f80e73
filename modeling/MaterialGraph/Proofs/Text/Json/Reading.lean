import MaterialGraph.Proofs.Text.Json.Scanning
import MaterialGraph.Text.Json.Reader

/-!
Reading written JSON. From any state that awaits a value, the tokens of a value hand that value to
the innermost open frame; so the whole text gives the value back.
-/

set_option autoImplicit false

namespace MaterialGraph.Text.Json

/-- Wherever a value is awaited, the tokens of this one finish it. -/
def Reads (json : Json) : Prop :=
  ∀ (stack : List Frame) (mayClose : Bool) (rest : List Token),
    (tokensOf json ++ rest).foldlM Reader.step (.value stack mayClose) =
      rest.foldlM Reader.step (Reader.finish json stack)

theorem foldlM_step {reader next : Reader} {token : Token}
    (stepped : reader.step token = some next) (rest : List Token) :
    (token :: rest).foldlM Reader.step reader = rest.foldlM Reader.step next := by
  rw [List.foldlM_cons, stepped]
  rfl

theorem foldlM_tokensOfElements {elements : List Json} (each : ∀ element ∈ elements, Reads element)
    (done : List Json) (stack : List Frame) (rest : List Token) :
    (tokensOfElements elements ++ .closeBracket :: rest).foldlM Reader.step
        (.afterValue (.array done) stack) =
      rest.foldlM Reader.step (Reader.finish (.array (done.reverse ++ elements)) stack) := by
  induction elements generalizing done with
  | nil => rw [tokensOfElements, List.nil_append, foldlM_step rfl, List.append_nil]
  | cons element more ih =>
      obtain ⟨first, others⟩ := List.forall_mem_cons.1 each
      rw [tokensOfElements, List.cons_append, List.append_assoc, foldlM_step rfl, first,
        Reader.finish, ih others, List.reverse_cons, List.append_assoc, List.singleton_append]

theorem reads_array {elements : List Json} (each : ∀ element ∈ elements, Reads element) :
    Reads (array elements) := by
  intro stack mayClose rest
  cases elements with
  | nil => rw [tokensOf, List.cons_append, foldlM_step rfl, List.singleton_append, foldlM_step rfl]
  | cons element more =>
      obtain ⟨first, others⟩ := List.forall_mem_cons.1 each
      rw [tokensOf, List.cons_append, List.append_assoc, List.append_assoc, foldlM_step rfl, first,
        Reader.finish, List.singleton_append, foldlM_tokensOfElements others]
      rfl

theorem foldlM_member {value : Json} (reads : Reads value) (key : Option String)
    (done : List (Option String × Json)) (stack : List Frame) (mayClose : Bool)
    (rest : List Token) :
    (.string key :: .colon :: (tokensOf value ++ rest)).foldlM Reader.step
        (.key stack done mayClose) =
      rest.foldlM Reader.step (.afterValue (.object ((key, value) :: done) key) stack) := by
  rw [foldlM_step rfl, foldlM_step rfl, reads, Reader.finish]

theorem foldlM_tokensOfMembers {members : List (Option String × Json)}
    (each : ∀ member ∈ members, Reads member.2) (done : List (Option String × Json))
    (key : Option String) (stack : List Frame) (rest : List Token) :
    (tokensOfMembers members ++ .closeBrace :: rest).foldlM Reader.step
        (.afterValue (.object done key) stack) =
      rest.foldlM Reader.step (Reader.finish (.object (done.reverse ++ members)) stack) := by
  induction members generalizing done key with
  | nil => rw [tokensOfMembers, List.nil_append, foldlM_step rfl, List.append_nil]
  | cons member more ih =>
      obtain ⟨first, others⟩ := List.forall_mem_cons.1 each
      rw [tokensOfMembers, List.cons_append, List.cons_append, List.cons_append,
        List.append_assoc, foldlM_step rfl, foldlM_member first, ih others, List.reverse_cons,
        List.append_assoc, List.singleton_append]

theorem reads_object {members : List (Option String × Json)}
    (each : ∀ member ∈ members, Reads member.2) : Reads (object members) := by
  intro stack mayClose rest
  cases members with
  | nil => rw [tokensOf, List.cons_append, foldlM_step rfl, List.singleton_append, foldlM_step rfl]
  | cons member more =>
      obtain ⟨first, others⟩ := List.forall_mem_cons.1 each
      rw [tokensOf, List.cons_append, List.cons_append, List.cons_append, List.append_assoc,
        List.append_assoc, foldlM_step rfl, foldlM_member first, List.singleton_append,
        foldlM_tokensOfMembers others]
      rfl

theorem Written.reads {json : Json} (written : Written json) : Reads json := by
  induction written with
  | null | boolean | number | text => exact fun _ _ rest => foldlM_step rfl rest
  | array _ each => exact reads_array each
  | record _ each =>
      apply reads_object
      intro member isMember
      obtain ⟨field, isField, rfl⟩ := List.mem_map.1 isMember
      exact each field isField

/-- What the writer writes, the reader reads back. -/
theorem read?_pretty {json : Json} (written : Written json) :
    read? json.pretty = some json := by
  have folded := written.reads [] false []
  rw [List.append_nil] at folded
  rw [read?, tokens?_pretty written]
  simp only
  rw [folded]
  rfl

end MaterialGraph.Text.Json
