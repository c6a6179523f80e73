import MaterialGraph.Graph.Wiring
import MaterialGraph.Table

/-!
Typing. Nodes are checked one after another; a node that passes records the types of its output
slots, and one that fails records nothing, so that what depends on it is reported and not guessed.
-/

set_option autoImplicit false

namespace MaterialGraph

abbrev TypeTable := Table (NodeId × SlotId) ValueType

inductive TypeFault where
  /-- A required input has neither a producer nor a default. -/
  | missingArgument (input : String)
  /-- The producer's output has no recorded type. -/
  | undeterminedType (input : String)
  /-- The type that arrives is not among those allowed. -/
  | invalidType (input : String) (found : ValueType) (allowed : TypeSet)
  /-- Operand types that do not combine. -/
  | incompatible (op : MathOp) (left right : ValueType)
deriving DecidableEq, Repr

namespace TypeFault

def message : TypeFault → String
  | missingArgument input => "Missing argument `" ++ input ++ "`"
  | undeterminedType input => "Cannot determine type of `" ++ input ++ "`"
  | invalidType input found allowed =>
      "Invalid input type for `" ++ input ++ "`: " ++ found.label ++ " is not one of " ++
        allowed.label
  | incompatible op left right =>
      "Incompatible operands for " ++ op.label ++ ": " ++ left.label ++ " and " ++ right.label

end TypeFault

structure Diagnostic where
  node : NodeId
  fault : TypeFault
deriving DecidableEq, Repr

namespace Diagnostic

def message (diagnostic : Diagnostic) : String :=
  "node " ++ nodeLabel diagnostic.node ++ ": " ++ diagnostic.fault.message

end Diagnostic

namespace MathOp

/-- The type of two operands taken lane by lane; a scalar is repeated. -/
def widen (op : MathOp) (left right : ValueType) : Except TypeFault ValueType :=
  if left = right then .ok left
  else if left = .scalar then .ok right
  else if right = .scalar then .ok left
  else .error (.incompatible op left right)

def resultType (op : MathOp) (operands : List ValueType) : Except TypeFault ValueType :=
  match op, operands with
  | dot, [left, right] =>
      if left = right then .ok .scalar else .error (.incompatible op left right)
  | lerp, [first, second, amount] =>
      match op.widen first second with
      | .error fault => .error fault
      | .ok result =>
          if amount = .scalar ∨ amount = result then .ok result
          else .error (.incompatible op result amount)
  | _, [left, right] => op.widen left right
  | _, [value] => .ok value
  | _, _ => .ok .scalar

end MathOp

namespace Typing

variable {Target : Type}

/-- The type that reaches an input slot before it is compared with those allowed: that of its
producer's output, else that of its default. -/
def arrivingType (table : TypeTable) (input : InputSlot) : Except TypeFault (Option ValueType) :=
  match input.binding with
  | some binding =>
      match table.find? (binding.node, binding.output) with
      | some type => .ok (some type)
      | none => .error (.undeterminedType input.name)
  | none =>
      match input.default with
      | some value => .ok (some value.type)
      | none => if input.required then .error (.missingArgument input.name) else .ok none

/-- The type of an input slot, `none` for an optional slot that nothing feeds. -/
def inputType (table : TypeTable) (input : InputSlot) : Except TypeFault (Option ValueType) :=
  match arrivingType table input with
  | .error fault => .error fault
  | .ok none => .ok none
  | .ok (some found) =>
      if input.allowed.contains found then .ok (some found)
      else .error (.invalidType input.name found input.allowed)

/-- The types of all input slots, or the fault of the first that has one. -/
def inputTypes (table : TypeTable) : List InputSlot → Except TypeFault (List (Option ValueType))
  | [] => .ok []
  | input :: rest =>
      match inputType table input with
      | .error fault => .error fault
      | .ok type =>
          match inputTypes table rest with
          | .error fault => .error fault
          | .ok types => .ok (type :: types)

/-- The type of output slots that declare none. -/
def inferredType (kind : Kind Target) (operands : List (Option ValueType)) :
    Except TypeFault (Option ValueType) :=
  match kind with
  | .math op =>
      match op.resultType (operands.filterMap id) with
      | .error fault => .error fault
      | .ok type => .ok (some type)
  | .functionOutput _ _ => .ok operands.head?.join
  | _ => .ok none

def record (id : NodeId) (inferred : Option ValueType) (outputs : List OutputSlot)
    (table : TypeTable) : TypeTable :=
  outputs.foldl
    (fun table output =>
      match output.type.or inferred with
      | some type => table.insert (id, output.id) type
      | none => table)
    table

/-- Checks a node against the types recorded so far. -/
def checkNode (table : TypeTable) (node : Node Target) : Except TypeFault TypeTable :=
  match inputTypes table node.inputs with
  | .error fault => .error fault
  | .ok operands =>
      match inferredType node.kind operands with
      | .error fault => .error fault
      | .ok inferred => .ok (record node.id inferred node.outputs table)

/-- Checks the node with an identifier; where there is none, nothing is wrong. -/
def check (wired : Wired Target) (table : TypeTable) (id : NodeId) : Except TypeFault TypeTable :=
  match wired.node? id with
  | none => .ok table
  | some node => checkNode table node

/-- Checks nodes in order, to the end or up to the first fault. -/
def checkAll (wired : Wired Target) (stopAtFirst : Bool) :
    List NodeId → TypeTable → TypeTable × List Diagnostic
  | [], table => (table, [])
  | id :: rest, table =>
      match check wired table id with
      | .ok table => checkAll wired stopAtFirst rest table
      | .error fault =>
          if stopAtFirst then (table, [⟨id, fault⟩])
          else
            let (table, later) := checkAll wired stopAtFirst rest table
            (table, ⟨id, fault⟩ :: later)

end Typing

end MaterialGraph
