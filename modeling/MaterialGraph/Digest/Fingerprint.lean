import MaterialGraph.Callable.Basic

/-!
Fingerprints of wired graphs. The nodes that feed the roots are described by records, in ascending
order of identifier, and the digest is taken over their encodings. Names of nodes and of the graph
do not appear; a call carries the digest of its callee.

The encoding is little endian with fixed widths. Texts and lists carry their length. Optional
properties of a kind write nothing when absent, and a one before the value when present; other
optional fields write a zero when absent.
-/

set_option autoImplicit false

namespace MaterialGraph

structure InputRecord where
  slot : SlotId
  binding : Option Binding
  default : Option Literal
deriving DecidableEq, Repr

structure NodeRecord where
  id : NodeId
  isRoot : Bool
  kind : Kind String
  callee : Option Digest
  inputs : List InputRecord
deriving DecidableEq, Repr

namespace Encoding

/-- The lowest bytes of a number, least significant first. -/
def littleEndian : Nat → Nat → List UInt8
  | 0, _ => []
  | count + 1, number => UInt8.ofNat (number % 256) :: littleEndian count (number / 256)

def word (value : UInt32) : List UInt8 := littleEndian 4 value.toNat

def length (value : Nat) : List UInt8 := littleEndian 8 value

def text (value : String) : List UInt8 :=
  let bytes := value.toUTF8.data.toList
  length bytes.length ++ bytes

/-- A property that writes nothing when it is absent. -/
def property {Value : Type} (encode : Value → List UInt8) : Option Value → List UInt8
  | none => []
  | some value => 1 :: encode value

/-- A field that says whether it is present. -/
def field {Value : Type} (encode : Value → List UInt8) : Option Value → List UInt8
  | none => [0]
  | some value => 1 :: encode value

def single (value : Single) : List UInt8 := word value.bits

def literal (value : Literal) : List UInt8 :=
  word (UInt32.ofNat value.type.index) ++ value.lanes.flatMap single

def type (value : ValueType) : List UInt8 := word (UInt32.ofNat value.index)

def kindFields : Kind String → List UInt8
  | .constant value parameter => literal value ++ property text parameter
  | .textureRef name source => text name ++ property text source
  | .textureSample => []
  | .math op => word (UInt32.ofNat op.index)
  | .output block => word (UInt32.ofNat block.index)
  | .functionInput name valueType default =>
      property text name ++ type valueType ++ property literal default
  | .functionOutput name accepts =>
      property text name ++ length accepts.toList.length ++ accepts.toList.flatMap type
  | .call path => text path

def kind (value : Kind String) : List UInt8 := text value.tag ++ kindFields value

def binding (value : Binding) : List UInt8 := word value.node ++ word value.output

def input (value : InputRecord) : List UInt8 :=
  word value.slot ++ field binding value.binding ++ field literal value.default

def node (value : NodeRecord) : List UInt8 :=
  word value.id ++ [if value.isRoot then 1 else 0] ++ kind value.kind ++
    field Digest.bytes value.callee ++ length value.inputs.length ++ value.inputs.flatMap input

end Encoding

namespace Wired

def inputRecord (input : InputSlot) : InputRecord := ⟨input.id, input.binding, input.default⟩

/-- The digest of the graph a node calls, if it calls one that was loaded. -/
def calleeDigest : Kind (CallTarget Callable) → Option Digest
  | .call (.resolved callee) => some callee.digest
  | _ => none

def nodeRecord (roots : List NodeId) (node : MaterialNode) : NodeRecord :=
  ⟨node.id, roots.contains node.id, node.kind.map CallSite.path, calleeDigest node.kind,
    node.inputs.map inputRecord⟩

def ascending (ids : List NodeId) : List NodeId := ids.mergeSort fun left right => left ≤ right

def records (wired : WiredMaterial) (roots : List NodeId) : List NodeRecord :=
  ((ascending (wired.reachable roots)).filterMap wired.node?).map (nodeRecord roots)

def stream (wired : WiredMaterial) (roots : List NodeId) : List UInt8 :=
  (wired.records roots).flatMap Encoding.node

/-- The digest of what feeds the roots. -/
def fingerprint (wired : WiredMaterial) (roots : List NodeId) : Digest :=
  Sha256.digest (wired.stream roots)

end Wired

end MaterialGraph
