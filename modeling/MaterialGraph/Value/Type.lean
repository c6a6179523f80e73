/-!
The types of the values that flow through a graph, and finite sets of them.
-/

set_option autoImplicit false

namespace MaterialGraph

/-- The type of a value: a float, a vector of floats, or a texture with its sampler. -/
inductive ValueType where
  | scalar
  | vec2
  | vec3
  | vec4
  | texture
deriving DecidableEq, Repr, Inhabited

namespace ValueType

/-- All types, in the order in which sets list them. -/
def all : List ValueType := [scalar, vec2, vec3, vec4, texture]

theorem mem_all (type : ValueType) : type ∈ all := by cases type <;> decide

def lanes? : ValueType → Option Nat
  | scalar => some 1
  | vec2 => some 2
  | vec3 => some 3
  | vec4 => some 4
  | texture => none

/-- The numeric type with a given number of lanes. -/
def ofLanes? : Nat → Option ValueType
  | 1 => some scalar
  | 2 => some vec2
  | 3 => some vec3
  | 4 => some vec4
  | _ => none

theorem ofLanes?_eq_some_iff (count : Nat) (type : ValueType) :
    ofLanes? count = some type ↔ type.lanes? = some count := by
  constructor
  · intro found
    unfold ofLanes? at found
    split at found <;> simp at found <;> subst found <;> rfl
  · intro counted
    cases type <;> simp [lanes?] at counted <;> subst counted <;> rfl

def label : ValueType → String
  | scalar => "scalar"
  | vec2 => "vec2"
  | vec3 => "vec3"
  | vec4 => "vec4"
  | texture => "texture"

def tag : ValueType → String
  | scalar => "Scalar"
  | vec2 => "Vec2"
  | vec3 => "Vec3"
  | vec4 => "Vec4"
  | texture => "Texture"

def ofTag? (tag : String) : Option ValueType := all.find? fun type => type.tag = tag

theorem ofTag?_tag (type : ValueType) : ofTag? type.tag = some type := by
  cases type <;> decide

def index : ValueType → Nat
  | scalar => 0
  | vec2 => 1
  | vec3 => 2
  | vec4 => 3
  | texture => 4

end ValueType

/-- A set of value types, by membership of each. -/
structure TypeSet where
  scalar : Bool
  vec2 : Bool
  vec3 : Bool
  vec4 : Bool
  texture : Bool
deriving DecidableEq, Repr, Inhabited

namespace TypeSet

def contains (set : TypeSet) : ValueType → Bool
  | .scalar => set.scalar
  | .vec2 => set.vec2
  | .vec3 => set.vec3
  | .vec4 => set.vec4
  | .texture => set.texture

/-- The set of the types that satisfy a test. -/
def ofTest (test : ValueType → Bool) : TypeSet :=
  ⟨test .scalar, test .vec2, test .vec3, test .vec4, test .texture⟩

@[simp] theorem contains_ofTest (test : ValueType → Bool) (type : ValueType) :
    (ofTest test).contains type = test type := by
  cases type <;> rfl

theorem ext_contains {left right : TypeSet}
    (same : ∀ type, left.contains type = right.contains type) : left = right := by
  have scalar := same .scalar
  have vec2 := same .vec2
  have vec3 := same .vec3
  have vec4 := same .vec4
  have texture := same .texture
  cases left
  cases right
  simp_all [contains]

def empty : TypeSet := ofTest fun _ => false

def single (type : ValueType) : TypeSet := ofTest (· = type)

def ofList (types : List ValueType) : TypeSet := ofTest (types.contains ·)

def union (left right : TypeSet) : TypeSet :=
  ofTest fun type => left.contains type || right.contains type

/-- The members, in the order of `ValueType.all`. -/
def toList (set : TypeSet) : List ValueType := ValueType.all.filter set.contains

@[simp] theorem mem_toList (set : TypeSet) (type : ValueType) :
    type ∈ set.toList ↔ set.contains type = true := by
  simp [toList, ValueType.mem_all]

@[simp] theorem ofList_toList (set : TypeSet) : ofList set.toList = set := by
  apply ext_contains
  intro type
  rw [ofList, contains_ofTest]
  cases member : set.contains type <;> simp [member]

/-- Floats and vectors of every width. -/
def numeric : TypeSet := ofList [.scalar, .vec2, .vec3, .vec4]

def vectors : TypeSet := ofList [.vec2, .vec3, .vec4]

/-- A grey, a colour, or a colour with alpha. -/
def color : TypeSet := ofList [.scalar, .vec3, .vec4]

def textures : TypeSet := single .texture

/-- The set in messages, between braces. -/
def label (set : TypeSet) : String :=
  "\x7b" ++ String.intercalate ", " (set.toList.map ValueType.label) ++ "\x7d"

/-- The set by file names, between braces. -/
def tags (set : TypeSet) : String :=
  "\x7b" ++ String.intercalate ", " (set.toList.map ValueType.tag) ++ "\x7d"

/-- The set in object notation: file names between brackets. -/
def bracketed (set : TypeSet) : String :=
  "[" ++ String.intercalate "," (set.toList.map ValueType.tag) ++ "]"

end TypeSet

end MaterialGraph
