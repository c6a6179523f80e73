import MaterialGraph.Value.Literal

/-!
Output blocks: sinks whose input ports have fixed meanings. Each port has a type it is stored at
and a value it falls back to when nothing is connected.
-/

set_option autoImplicit false

namespace MaterialGraph

/-- A port of an output block: what may be connected, and the type the value is stored as. -/
structure BlockPort where
  name : String
  accepts : TypeSet
  storage : ValueType
deriving DecidableEq, Repr

inductive Block where
  | surface
  | unlit
  | vertex
deriving DecidableEq, Repr

namespace Block

def all : List Block := [surface, unlit, vertex]

/-- Ports in catalogue order; a port's slot is its position. -/
def ports : Block → List BlockPort
  | surface =>
      [⟨"BaseColor", .color, .vec3⟩,
        ⟨"Metallic", .single .scalar, .scalar⟩,
        ⟨"Roughness", .single .scalar, .scalar⟩,
        ⟨"Normal", .single .vec3, .vec3⟩,
        ⟨"Tangent", .ofList [.vec3, .vec4], .vec4⟩,
        ⟨"Opacity", .single .scalar, .scalar⟩,
        ⟨"Emissive", .color, .vec3⟩,
        ⟨"Occlusion", .single .scalar, .scalar⟩]
  | unlit =>
      [⟨"Color", .color, .vec4⟩,
        ⟨"Opacity", .single .scalar, .scalar⟩]
  | vertex =>
      [⟨"Position", .ofList [.vec3, .vec4], .vec3⟩,
        ⟨"Color", .color, .vec4⟩,
        ⟨"UV", .single .vec2, .vec2⟩,
        ⟨"Normal", .single .vec3, .vec3⟩,
        ⟨"Tangent", .ofList [.vec3, .vec4], .vec4⟩]

def port? (block : Block) (name : String) : Option BlockPort :=
  block.ports.find? fun port => port.name = name

def label : Block → String
  | surface => "Surface Output"
  | unlit => "Unlit Output"
  | vertex => "Vertex Output"

def tag : Block → String
  | surface => "Surface"
  | unlit => "Unlit"
  | vertex => "Vertex"

def ofTag? (tag : String) : Option Block := all.find? fun block => block.tag = tag

theorem ofTag?_tag (block : Block) : ofTag? block.tag = some block := by
  cases block <;> decide

def index : Block → Nat
  | surface => 0
  | unlit => 1
  | vertex => 2

/-- 0.8, the default base colour. -/
def lightGrey : Single := ⟨0x3F4CCCCD⟩

/-- 0.5, the default roughness. -/
def half : Single := ⟨0x3F000000⟩

/-- The value of an unconnected port: chosen for some names, and zero for the others. -/
def fallback (block : Block) (port : String) : Literal :=
  if block = surface ∧ port = "BaseColor" then .vec3 lightGrey lightGrey lightGrey
  else if block = surface ∧ port = "Roughness" then .scalar half
  else if port = "Normal" then .vec3 .zero .zero .one
  else if port = "Tangent" then .vec4 .one .zero .zero .one
  else if port = "Opacity" ∨ port = "Occlusion" then .scalar .one
  else if port = "Color" then .vec4 .one .one .one .one
  else
    match block.port? port with
    | some port => (Literal.zero? port.storage).getD (.scalar .zero)
    | none => .scalar .zero

end Block

end MaterialGraph
