import MaterialGraph.Value.Type

/-!
Component selection: a lane of a source vector, or a constant fill.
-/

set_option autoImplicit false

namespace MaterialGraph

inductive Lane where
  | x
  | y
  | z
  | w
deriving DecidableEq, Repr

namespace Lane

def letter : Lane → Char
  | x => 'x'
  | y => 'y'
  | z => 'z'
  | w => 'w'

/-- The lane at a vector index; indices past the last name the last. -/
def ofIndex : Nat → Lane
  | 0 => x
  | 1 => y
  | 2 => z
  | _ => w

def index : Lane → Nat
  | x => 0
  | y => 1
  | z => 2
  | w => 3

end Lane

inductive Component where
  | lane (lane : Lane)
  | zero
  | one
deriving DecidableEq, Repr

namespace Component

/-- The selected lane, if the component is not a fill. -/
def lane? : Component → Option Lane
  | lane selected => some selected
  | zero | one => none

def tag : Component → String
  | lane .x => "X"
  | lane .y => "Y"
  | lane .z => "Z"
  | lane .w => "W"
  | zero => "Zero"
  | one => "One"

def all : List Component := [lane .x, lane .y, lane .z, lane .w, zero, one]

def ofTag? (tag : String) : Option Component := all.find? fun component => component.tag = tag

/-- Components that turn a value of one type into another: a scalar is repeated, a wider vector is
cut, a narrower one is filled with zeros, and with one in the fourth lane. -/
def cast (source target : ValueType) : List Component :=
  match source.lanes?, target.lanes? with
  | some width, some count =>
      (List.range count).map fun position =>
        if width = 1 then lane .x
        else if position < width then lane (Lane.ofIndex position)
        else if position = 3 then one
        else zero
  | _, _ => []

end Component

end MaterialGraph
