import MaterialGraph.Proofs.Lowering.Represents

/-!
What graphs and expressions mean, for any meaning of operations, samples, lanes, uniforms and
textures. A graph is evaluated along the bindings of its inputs; a call evaluates the graph it
calls, with the arguments for its formal inputs and with longer names for uniforms and textures.
Expressions are evaluated from their operands.
-/

set_option autoImplicit false

namespace MaterialGraph

structure Interpretation (Value : Type) where
  literal : Literal → Value
  /-- A uniform, by its name, its type and its default. -/
  uniform : String → ValueType → Literal → Value
  texture : String → Value
  /-- A texture read at a coordinate, and maybe at a level of detail. -/
  sample : Value → Value → Option Value → Value
  select : List Component → Value → Value
  math : MathOp → List Value → Value

/-- Where a graph is evaluated: the values its formal inputs stand for, and the text put before the
names of its uniforms and textures. -/
structure Frame (Value : Type) where
  wired : WiredMaterial
  arguments : Table NodeId Value
  scope : String

namespace Frame

variable {Value : Type}

def top (wired : WiredMaterial) : Frame Value := ⟨wired, [], ""⟩

def called (frame : Frame Value) (call : NodeId) (callee : Callable)
    (arguments : Table NodeId Value) : Frame Value :=
  ⟨callee.body, arguments, frame.scope ++ "call" ++ toString call.toNat ++ "_"⟩

end Frame

namespace Interpretation

variable {Value : Type}

def channel (meaning : Interpretation Value) (slot : SlotId) (texel : Value) : Option Value :=
  match slot.toNat with
  | 0 => some texel
  | 1 => some (meaning.select [.lane .x, .lane .y, .lane .z] texel)
  | 2 => some (meaning.select [.lane .x] texel)
  | 3 => some (meaning.select [.lane .y] texel)
  | 4 => some (meaning.select [.lane .z] texel)
  | 5 => some (meaning.select [.lane .w] texel)
  | _ => none

/-- A formal input without an argument: a uniform, or a texture, of its name. -/
def free (meaning : Interpretation Value) (frame : Frame Value) (id : NodeId)
    (name : Option String) (type : ValueType) (default : Option Literal) : Value :=
  let name := frame.scope ++ name.getD ("arg_" ++ toString id.toNat)
  match Literal.zero? type with
  | some zero => meaning.uniform name type (default.getD zero)
  | none => meaning.texture name

mutual

/-- The value of a node; output blocks have none, and calls have one for each output. -/
def node (meaning : Interpretation Value) (frame : Frame Value) (id : NodeId) : Option Value :=
  match frame.wired.node? id with
  | none => none
  | some node =>
      match node.kind with
      | .constant value none => some (meaning.literal value)
      | .constant value (some name) =>
          some (meaning.uniform (frame.scope ++ name) value.type value)
      | .textureRef name _ => some (meaning.texture (frame.scope ++ name))
      | .textureSample => do
          let image ← meaning |>.operand frame id Kind.textureSlot
          let coordinate ← meaning |>.operand frame id Kind.coordinateSlot
          let level ← meaning |>.input frame id Kind.levelSlot
          some (meaning.sample image coordinate level)
      | .math op => do
          let operands ← node.inputs.mapM fun slot => meaning |>.operand frame id slot.id
          some (meaning.math op operands)
      | .functionInput name type default =>
          match frame.arguments.find? id with
          | some argument => some argument
          | none => some (meaning.free frame id name type default)
      | .functionOutput _ _ => meaning |>.operand frame id 0
      | .output _ => none
      | .call _ => none
partial_fixpoint

def output (meaning : Interpretation Value) (frame : Frame Value) (id : NodeId)
    (slot : SlotId) : Option Value :=
  match frame.wired.node? id with
  | none => none
  | some found =>
      match found.kind with
      | .textureSample => do
          let texel ← meaning |>.node frame id
          meaning.channel slot texel
      | .call (.resolved callee) => do
          let arguments ← meaning |>.arguments frame id callee
          let formal ← callee.outputs[slot.toNat]?
          meaning |>.node (frame.called id callee arguments) formal.node
      | _ => meaning |>.node frame id
partial_fixpoint

def arguments (meaning : Interpretation Value) (frame : Frame Value) (id : NodeId)
    (callee : Callable) : Option (Table NodeId Value) :=
  callee.inputs.mapM fun formal => do
    let argument ← meaning |>.operand frame id formal.index
    some (formal.node, argument)
partial_fixpoint

/-- The value that reaches an input slot: its producer's, else its default, else none. -/
def input (meaning : Interpretation Value) (frame : Frame Value) (id : NodeId)
    (slot : SlotId) : Option (Option Value) :=
  match (frame.wired.node? id).bind fun node => node.input? slot with
  | none => none
  | some found =>
      match found.binding, found.default with
      | some binding, _ => do
          let value ← meaning |>.output frame binding.node binding.output
          some (some value)
      | none, some value => some (some (meaning.literal value))
      | none, none => some none
partial_fixpoint

def operand (meaning : Interpretation Value) (frame : Frame Value) (id : NodeId)
    (slot : SlotId) : Option Value := do
  let value ← meaning |>.input frame id slot
  value
partial_fixpoint

end

end Interpretation

/-- What an expression stands for: a value, or the values of a call's outputs. -/
inductive Meaning (Value : Type) where
  | value (value : Value)
  | results (values : List Value)

namespace Meaning

variable {Value : Type}

def value? : Meaning Value → Option Value
  | value found => some found
  | results _ => none

def results? : Meaning Value → Option (List Value)
  | value _ => none
  | results values => some values

end Meaning

namespace Interpretation

variable {Value : Type} (meaning : Interpretation Value)

def apply (known : ExprId → Option (Meaning Value)) (kind : ExprKind) (type : Option ValueType) :
    Option (Meaning Value) :=
  let operand := fun id => (known id).bind Meaning.value?
  match kind with
  | .constant value none => some (.value (meaning.literal value))
  | .constant value (some name) =>
      some (.value (meaning.uniform name (type.getD value.type) value))
  | .texture name => some (.value (meaning.texture name))
  | .sample image coordinate level => do
      let image ← operand image
      let coordinate ← operand coordinate
      let level ← level.mapM operand
      some (.value (meaning.sample image coordinate level))
  | .swizzle source components => do
      let source ← operand source
      some (.value (meaning.select components source))
  | .math op operands => do
      let operands ← operands.mapM operand
      some (.value (meaning.math op operands))
  | .call _ outputs => do
      let outputs ← outputs.mapM operand
      some (.results outputs)
  | .result aggregate index => do
      let results ← (known aggregate).bind Meaning.results?
      let result ← results[index]?
      some (.value result)

def eval (exprs : ExprList) (id : ExprId) : Option (Meaning Value) :=
  match exprs[id]? with
  | none => none
  | some expr =>
      meaning.apply (fun operand => if operand < id then eval exprs operand else none)
        expr.kind expr.type
termination_by id

theorem apply_congr {left right : ExprId → Option (Meaning Value)} {kind : ExprKind}
    {type : Option ValueType} (same : ∀ operand ∈ kind.operands, left operand = right operand) :
    meaning.apply left kind type = meaning.apply right kind type := by
  cases kind with
  | constant value parameter => cases parameter <;> rfl
  | texture name => rfl
  | sample image coordinate level =>
      have atImage := same image List.mem_cons_self
      have atCoordinate := same coordinate (List.mem_cons_of_mem _ List.mem_cons_self)
      cases level with
      | none => simp only [apply, atImage, atCoordinate, Option.mapM_none]
      | some level =>
          have atLevel := same level (by simp [ExprKind.operands])
          simp only [apply, atImage, atCoordinate, atLevel, Option.mapM_some]
  | swizzle source components =>
      have atSource := same source List.mem_cons_self
      simp only [apply, atSource]
  | math op operands =>
      have atOperands := mapM_congr fun operand member =>
        congrArg (fun known => known.bind Meaning.value?) (same operand member)
      simp only [ExprKind.operands] at atOperands
      simp only [apply, atOperands]
  | call function outputs =>
      have atOutputs := mapM_congr fun output member =>
        congrArg (fun known => known.bind Meaning.value?) (same output member)
      simp only [ExprKind.operands] at atOutputs
      simp only [apply, atOutputs]
  | result aggregate index =>
      have atAggregate := same aggregate List.mem_cons_self
      simp only [apply, atAggregate]

theorem eval_of_holds {exprs : ExprList} (ordered : exprs.OrderedFrom 0) {id : ExprId}
    {kind : ExprKind} {type : Option ValueType} (held : exprs.Holds id kind type) :
    meaning.eval exprs id = meaning.apply (meaning.eval exprs) kind type := by
  rcases ExprList.holds_iff.1 held with ⟨expr, found, rfl, rfl⟩
  rw [eval, found]
  apply apply_congr
  intro operand member
  rw [if_pos (ordered id _ _ (Nat.zero_le id) held operand member)]

end Interpretation

end MaterialGraph
