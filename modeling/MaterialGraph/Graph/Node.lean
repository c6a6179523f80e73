import MaterialGraph.Graph.Block
import MaterialGraph.Value.Operation

/-!
Nodes and their slots. Node kinds are a closed set; what a call node calls is a parameter, so that
the same kinds describe stored graphs, which call by path, and loaded ones, which hold the callee.
-/

set_option autoImplicit false

namespace MaterialGraph

/-- Identifies a node within its graph. -/
abbrev NodeId := UInt32

/-- Identifies a slot among the inputs, or among the outputs, of a node. -/
abbrev SlotId := UInt32

/-- Changes the first item of a list that has a key. -/
def updateFirst {Item Key : Type} [DecidableEq Key] (keyOf : Item → Key) (key : Key)
    (change : Item → Item) : List Item → List Item
  | [] => []
  | item :: rest =>
      if keyOf item = key then change item :: rest else item :: updateFirst keyOf key change rest

def nodeLabel (id : NodeId) : String := "#" ++ toString id.toNat

/-- The producer that feeds an input slot. -/
structure Binding where
  node : NodeId
  output : SlotId
deriving DecidableEq, Repr

/-- An input slot. An unbound slot takes its default; without one a required slot is in error. -/
structure InputSlot where
  id : SlotId
  name : String
  allowed : TypeSet
  default : Option Literal
  required : Bool
  binding : Option Binding
deriving DecidableEq, Repr

namespace InputSlot

def optional (id : SlotId) (name : String) (allowed : TypeSet) : InputSlot :=
  ⟨id, name, allowed, none, false, none⟩

def mandatory (id : SlotId) (name : String) (allowed : TypeSet) : InputSlot :=
  ⟨id, name, allowed, none, true, none⟩

def withDefault (id : SlotId) (name : String) (allowed : TypeSet) (value : Literal) : InputSlot :=
  ⟨id, name, allowed, some value, false, none⟩

end InputSlot

/-- An output slot; without a type of its own it takes the type inferred from the inputs. -/
structure OutputSlot where
  id : SlotId
  name : String
  type : Option ValueType
deriving DecidableEq, Repr

/-- What a node is, with its properties. -/
inductive Kind (Target : Type) where
  /-- A literal; with a parameter name, a uniform of that name. -/
  | constant (value : Literal) (parameter : Option String)
  /-- A bound texture, with the asset it is taken from. -/
  | textureRef (name : String) (source : Option String)
  /-- A texture sampled at a coordinate, with an optional level of detail. -/
  | textureSample
  | math (op : MathOp)
  | output (block : Block)
  /-- A formal input of a graph used as a function. -/
  | functionInput (name : Option String) (type : ValueType) (default : Option Literal)
  /-- A formal output of a graph used as a function. -/
  | functionOutput (name : Option String) (accepts : TypeSet)
  | call (target : Target)
deriving DecidableEq, Repr

/-- What call nodes need to know about the graph they call. -/
class CallSite (Target : Type) where
  path : Target → String
  inputs : Target → List InputSlot
  outputs : Target → List OutputSlot
  isUnresolved : Target → Bool

namespace Kind

variable {Target : Type}

def map {Other : Type} (change : Target → Other) : Kind Target → Kind Other
  | constant value parameter => constant value parameter
  | textureRef name source => textureRef name source
  | textureSample => textureSample
  | math op => math op
  | output block => output block
  | functionInput name type default => functionInput name type default
  | functionOutput name accepts => functionOutput name accepts
  | call target => call (change target)

/-- The name of a kind in graph files and fingerprints. -/
def tag : Kind Target → String
  | constant _ _ => "constant"
  | textureRef _ _ => "texture_ref"
  | textureSample => "texture_sample"
  | math _ => "math"
  | output _ => "output"
  | functionInput _ _ _ => "function_input"
  | functionOutput _ _ => "function_output"
  | call _ => "function_call"

def textureSlot : SlotId := 0

def coordinateSlot : SlotId := 1

def levelSlot : SlotId := 2

variable [CallSite Target]

/-- The name a node has until its author gives it one. -/
def label : Kind Target → String
  | constant _ _ => "Constant"
  | textureRef name _ => "Texture " ++ name
  | textureSample => "Texture Sample"
  | math op => op.label
  | output block => block.label
  | functionInput _ _ _ => "Function Input"
  | functionOutput _ _ => "Function Output"
  | call target => "Call " ++ CallSite.path target

def inputs : Kind Target → List InputSlot
  | constant _ _ => []
  | textureRef _ _ => []
  | textureSample =>
      [.mandatory textureSlot "Texture" .textures,
        .mandatory coordinateSlot "UV" (.single .vec2),
        .optional levelSlot "Lod" (.single .scalar)]
  | math op =>
      op.operandNames.zipIdx.map fun (name, position) =>
        .mandatory (UInt32.ofNat position) name op.operandTypes
  | output block =>
      block.ports.zipIdx.map fun (port, position) =>
        .optional (UInt32.ofNat position) port.name port.accepts
  | functionInput _ _ _ => []
  | functionOutput _ accepts => [.mandatory 0 "Value" accepts]
  | call target => CallSite.inputs target

def outputs : Kind Target → List OutputSlot
  | constant value _ => [⟨0, "Value", some value.type⟩]
  | textureRef _ _ => [⟨0, "Texture", some .texture⟩]
  | textureSample =>
      [⟨0, "RGBA", some .vec4⟩, ⟨1, "RGB", some .vec3⟩, ⟨2, "R", some .scalar⟩,
        ⟨3, "G", some .scalar⟩, ⟨4, "B", some .scalar⟩, ⟨5, "A", some .scalar⟩]
  | math _ => [⟨0, "Result", none⟩]
  | output _ => []
  | functionInput name type _ => [⟨0, name.getD "Value", some type⟩]
  | functionOutput _ _ => [⟨0, "Value", none⟩]
  | call target => CallSite.outputs target

/-- Whether this is a call of a graph that could not be loaded. -/
def isUnresolvedCall : Kind Target → Bool
  | call target => CallSite.isUnresolved target
  | _ => false

end Kind

structure Node (Target : Type) where
  id : NodeId
  name : String
  kind : Kind Target
  inputs : List InputSlot
  outputs : List OutputSlot
deriving DecidableEq

namespace Node

variable {Target : Type}

/-- A node with the name and slots of its kind. -/
def ofKind [CallSite Target] (id : NodeId) (kind : Kind Target) : Node Target :=
  ⟨id, kind.label, kind, kind.inputs, kind.outputs⟩

def input? (node : Node Target) (slot : SlotId) : Option InputSlot :=
  node.inputs.find? fun input => input.id = slot

def output? (node : Node Target) (slot : SlotId) : Option OutputSlot :=
  node.outputs.find? fun output => output.id = slot

/-- Changes the first input slot with an identifier. -/
def updateInput (slot : SlotId) (change : InputSlot → InputSlot) (inputs : List InputSlot) :
    List InputSlot := updateFirst InputSlot.id slot change inputs

def withName (node : Node Target) (name : String) : Node Target := { node with name }

/-- Gives an input slot a default; an unknown slot changes nothing. -/
def withDefault (node : Node Target) (slot : SlotId) (value : Literal) : Node Target :=
  { node with
    inputs := updateInput slot (fun input => { input with default := some value }) node.inputs }

def bind (node : Node Target) (slot : SlotId) (binding : Binding) : Node Target :=
  { node with
    inputs := updateInput slot (fun input => { input with binding := some binding }) node.inputs }

def unbind (node : Node Target) : Node Target :=
  { node with inputs := node.inputs.map fun input => { input with binding := none } }

end Node

end MaterialGraph
