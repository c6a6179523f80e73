import MaterialGraph.Description.Basic
import MaterialGraph.Text.Json.Reader
import MaterialGraph.Text.Json.Record

/-!
Reading descriptions from JSON. Unknown fields are ignored where they stand, except that the value
of a node's kind is taken up as a whole first: everything in it has to be sound, and its nesting is
limited.
-/

set_option autoImplicit false

namespace MaterialGraph

open Text

namespace Literal

/-- A literal: an object whose only key is the type. -/
def ofJson? : Json → Option Literal
  | .object [(some tag, value)] =>
      match ValueType.ofTag? tag with
      | none => none
      | some .scalar => value.single?.map scalar
      | some type => (value.list? Json.single?).bind (ofLanes? type)
  | _ => none

end Literal

namespace TypeSet

def ofJson? (json : Json) : Option TypeSet :=
  (json.list? fun element => element.name?.bind ValueType.ofTag?).map ofList

end TypeSet

namespace Link

def ofJson? (json : Json) : Option Link :=
  match json.fields? ["startNodeId", "startSlotId", "endNodeId", "endSlotId"] with
  | some [startNode, startSlot, endNode, endSlot] => do
      let startNode ← Json.required? Json.word? startNode
      let startSlot ← Json.required? Json.word? startSlot
      let endNode ← Json.required? Json.word? endNode
      let endSlot ← Json.required? Json.word? endSlot
      pure ⟨startNode, startSlot, endNode, endSlot⟩
  | _ => none

end Link

namespace Kind

/-- Splits off the name of the kind: the one member `kind` of an object, or the first element of an
array. -/
def tagged? : Json → Option (String × Json)
  | .object members =>
      match Json.member? members "kind" with
      | some (some (.string (some tag))) =>
          some (tag, .object (members.filter fun entry => entry.1 ≠ some "kind"))
      | _ => none
  | .array (.string (some tag) :: rest) => some (tag, .array rest)
  | _ => none

/-- Whether the properties of a kind without any are acceptable. -/
def isBare : Json → Bool
  | .object _ => true
  | .array [] => true
  | _ => false

def ofFields? (tag : String) (rest : Json) : Option (Kind String) :=
  match tag with
  | "constant" =>
      match rest.fields? ["value", "parameter"] with
      | some [value, parameter] => do
          let value ← Json.required? Literal.ofJson? value
          let parameter ← Json.optional? Json.text? parameter
          pure (constant value parameter)
      | _ => none
  | "texture_ref" =>
      match rest.fields? ["name", "source"] with
      | some [name, source] => do
          let name ← Json.required? Json.text? name
          let source ← Json.optional? Json.text? source
          pure (textureRef name source)
      | _ => none
  | "texture_sample" => if isBare rest then some textureSample else none
  | "math" =>
      match rest.fields? ["op"] with
      | some [op] => do
          let op ← Json.required? Json.name? op
          math <$> MathOp.ofTag? op
      | _ => none
  | "output" =>
      match rest.fields? ["block"] with
      | some [block] => do
          let block ← Json.required? Json.name? block
          output <$> Block.ofTag? block
      | _ => none
  | "function_input" =>
      match rest.fields? ["name", "value_type", "default"] with
      | some [name, type, default] => do
          let name ← Json.optional? Json.text? name
          let type ← Json.required? Json.name? type
          let type ← ValueType.ofTag? type
          let default ← Json.optional? Literal.ofJson? default
          pure (functionInput name type default)
      | _ => none
  | "function_output" =>
      match rest.fields? ["name", "accepts"] with
      | some [name, accepts] => do
          let name ← Json.optional? Json.text? name
          let accepts ← Json.default? TypeSet.ofJson? .numeric accepts
          pure (functionOutput name accepts)
      | _ => none
  | "function_call" =>
      match rest.fields? ["path"] with
      | some [path] => do
          let path ← Json.required? Json.text? path
          pure (call path)
      | _ => none
  | _ => none

/-- How deep the value that describes a kind may be nested. -/
def heightLimit : Nat := 124

def ofJson? (json : Json) : Option (Kind String) :=
  if json.isSound ∧ json.height ≤ heightLimit then
    match tagged? json with
    | some (tag, rest) => ofFields? tag rest
    | none => none
  else none

end Kind

namespace Override

def ofJson? (json : Json) : Option Override :=
  match json.fields? ["slot", "value"] with
  | some [slot, value] => do
      let slot ← Json.required? Json.word? slot
      let value ← Json.required? Literal.ofJson? value
      pure ⟨slot, value⟩
  | _ => none

end Override

namespace Entry

def ofJson? (json : Json) : Option Entry :=
  match json.fields? ["id", "locked", "name", "node", "defaults"] with
  | some [id, locked, name, node, defaults] => do
      let id ← Json.required? Json.word? id
      let locked ← Json.default? Json.boolean? false locked
      let name ← Json.optional? Json.text? name
      let kind ← Json.required? Kind.ofJson? node
      let defaults ← Json.default? (Json.list? Override.ofJson?) [] defaults
      pure ⟨id, locked, name, kind, defaults⟩
  | _ => none

end Entry

namespace Description

def ofJson? (json : Json) : Option Description :=
  match json.fields? ["name", "nodes", "links"] with
  | some [name, nodes, links] => do
      let name ← Json.optional? Json.text? name
      let nodes ← Json.default? (Json.list? Entry.ofJson?) [] nodes
      let links ← Json.default? (Json.list? Link.ofJson?) [] links
      pure ⟨name, nodes, links⟩
  | _ => none

def read (text : String) : Except DescriptionError Description :=
  match (Json.read? text).bind ofJson? with
  | some description => .ok description
  | none => .error .unreadable

end Description

end MaterialGraph
