import MaterialGraph.Expr.Basic
import MaterialGraph.Table

/-!
Uniform parameters by name, each with the one type it is used at.
-/

set_option autoImplicit false

namespace MaterialGraph

/-- A parameter name used at two types. -/
structure ParameterConflict where
  name : String
  first : ValueType
  second : ValueType
deriving DecidableEq, Repr

namespace ParameterConflict

def message (conflict : ParameterConflict) : String :=
  "Parameter `" ++ conflict.name ++ "` is used as " ++ conflict.first.tag ++ " and as " ++
    conflict.second.tag

end ParameterConflict

abbrev Parameters := Table String ValueType

namespace Parameters

/-- Records a name at a type, and says whether the name is new. -/
def declare (parameters : Parameters) (name : String) (type : ValueType) :
    Except ParameterConflict (Parameters × Bool) :=
  match parameters.find? name with
  | some first => if first = type then .ok (parameters, false) else .error ⟨name, first, type⟩
  | none => .ok (parameters.insert name type, true)

/-- Records the parameters of a list of expressions, up to the first conflict. -/
def collect : List Expr → Parameters → Parameters × Option ParameterConflict
  | [], parameters => (parameters, none)
  | expr :: rest, parameters =>
      match expr.parameter? with
      | none => collect rest parameters
      | some (name, type) =>
          match parameters.declare name type with
          | .ok (next, _) => collect rest next
          | .error conflict => (parameters, some conflict)

/-- Text order: by code points, which is the order of the encoded bytes. -/
def textLe (left right : String) : Bool := !decide (right < left)

def sortedNames (parameters : Parameters) : List String := parameters.keys.mergeSort textLe

/-- The conflict of a name that both tables hold at different types. -/
def conflictAt (left right : Parameters) (name : String) : Option ParameterConflict :=
  match left.find? name, right.find? name with
  | some first, some second => if first = second then none else some ⟨name, first, second⟩
  | _, _ => none

/-- Adds all entries of another table, or none of them if one conflicts; of several conflicts the
first in text order is reported. -/
def merge (left right : Parameters) : Except ParameterConflict Parameters :=
  match right.sortedNames.findSome? (conflictAt left right) with
  | some conflict => .error conflict
  | none => .ok (right.foldl (fun table entry => table.insert entry.1 entry.2) left)

end Parameters

end MaterialGraph
