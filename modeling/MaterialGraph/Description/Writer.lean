import MaterialGraph.Description.Basic
import MaterialGraph.Text.Json.Writer

/-!
Writing descriptions as JSON. Fields stand in a fixed order; names, optional properties and
defaults are left out where there are none.
-/

set_option autoImplicit false

namespace MaterialGraph

open Text

namespace Literal

/-- An object with the type as its only key. -/
def toJson (literal : Literal) : Json :=
  .record [(literal.type.tag,
    match literal with
    | .scalar x => .single x
    | literal => .array (literal.lanes.map Json.single))]

end Literal

namespace TypeSet

def toJson (set : TypeSet) : Json := .array (set.toList.map fun type => .text type.tag)

end TypeSet

namespace Link

def toJson (link : Link) : Json :=
  .record [("startNodeId", .nat link.startNode.toNat), ("startSlotId", .nat link.startSlot.toNat),
    ("endNodeId", .nat link.endNode.toNat), ("endSlotId", .nat link.endSlot.toNat)]

end Link

/-- A field that is left out when it has no value. -/
def optionalField {Value : Type} (name : String) (encode : Value → Json) :
    Option Value → List (String × Json)
  | none => []
  | some value => [(name, encode value)]

namespace Kind

def fields : Kind String → List (String × Json)
  | constant value parameter =>
      ("value", value.toJson) :: optionalField "parameter" Json.text parameter
  | textureRef name source => ("name", .text name) :: optionalField "source" Json.text source
  | textureSample => []
  | math op => [("op", .text op.tag)]
  | output block => [("block", .text block.tag)]
  | functionInput name type default =>
      optionalField "name" Json.text name ++ ("value_type", .text type.tag) ::
        optionalField "default" Literal.toJson default
  | functionOutput name accepts =>
      optionalField "name" Json.text name ++ [("accepts", accepts.toJson)]
  | call path => [("path", .text path)]

def toJson (kind : Kind String) : Json := .record (("kind", .text kind.tag) :: kind.fields)

end Kind

namespace Override

def toJson (override : Override) : Json :=
  .record [("slot", .nat override.slot.toNat), ("value", override.value.toJson)]

end Override

namespace Entry

def toJson (entry : Entry) : Json :=
  .record ([("id", .nat entry.id.toNat), ("locked", .boolean entry.locked)] ++
    optionalField "name" Json.text entry.name ++
    ("node", entry.kind.toJson) ::
    if entry.defaults.isEmpty then []
    else [("defaults", .array (entry.defaults.map Override.toJson))])

end Entry

namespace Description

def toJson (description : Description) : Json :=
  .record (optionalField "name" Json.text description.name ++
    [("nodes", .array (description.nodes.map Entry.toJson)),
      ("links", .array (description.links.map Link.toJson))])

def write (description : Description) : String := description.toJson.pretty

end Description

end MaterialGraph
