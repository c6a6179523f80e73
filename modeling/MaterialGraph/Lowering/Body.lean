import MaterialGraph.Lowering.Builder

/-!
Lowering a typed body to expressions. A node's operands are lowered before it, on demand. A call is
replaced by the lowered body of its callee: the callee's formal inputs stand for the arguments, and
the names of its parameters and textures are told apart by the place of the call.
-/

set_option autoImplicit false

namespace MaterialGraph.Lowering

/-- A body being lowered: the wired graph with its types, what its formal inputs stand for, and the
text put before the names of its parameters and textures. -/
structure Body where
  wired : WiredMaterial
  types : TypeTable
  arguments : Table NodeId ExprId
  scope : String

namespace Body

/-- The body of a graph that nobody calls. -/
def top (wired : WiredMaterial) (types : TypeTable) : Body := ⟨wired, types, [], ""⟩

/-- The body of a graph called from a node of another one. -/
def called (caller : Body) (call : NodeId) (callee : Callable)
    (arguments : Table NodeId ExprId) : Body :=
  ⟨callee.body, callee.types, arguments,
    caller.scope ++ "call" ++ toString call.toNat ++ "_"⟩

def qualified (body : Body) (name : String) : String := body.scope ++ name

end Body

/-- How the value of a node is obtained; `none` is for nodes that have none. -/
abbrev Demand := NodeId → Lower (Option ExprId)

/-- How a callee is lowered: the expressions of its formal outputs. -/
abbrev Inline := Callable → Body → LowerExprs (List ExprId)

/-- The part of a node's value that an output slot carries, where that is not all of it. -/
def projection? (node : MaterialNode) (slot : SlotId) (value : ExprId) : Option ExprKind :=
  match node.kind with
  | .textureSample =>
      match slot.toNat with
      | 0 => none
      | 1 => some (.swizzle value [.lane .x, .lane .y, .lane .z])
      | 2 => some (.swizzle value [.lane .x])
      | 3 => some (.swizzle value [.lane .y])
      | 4 => some (.swizzle value [.lane .z])
      | _ => some (.swizzle value [.lane .w])
  | .call _ => some (.result value slot.toNat)
  | _ => none

def outputOf (body : Body) (demand : Demand) (id : NodeId) (slot : SlotId) : Lower ExprId := do
  match ← demand id with
  | none => throw (.noValue id)
  | some value => do
      let builder ← get
      match builder.projections.find? (id, slot) with
      | some expr => pure expr
      | none =>
          match body.wired.node? id with
          | none => throw (.missingNode id)
          | some node =>
              match projection? node slot value with
              | none => pure value
              | some kind => do
                  let expr ← push kind ((node.output? slot).bind OutputSlot.type)
                  modify fun builder =>
                    { builder with projections := builder.projections.insert (id, slot) expr }
                  pure expr

/-- The expression of a literal that an input slot takes. -/
def literalAt (id : NodeId) (slot : SlotId) (value : Literal) : Lower ExprId := do
  let builder ← get
  match builder.literals.find? (id, slot) with
  | some expr => pure expr
  | none => do
      let expr ← push (.constant value none) (some value.type)
      modify fun builder => { builder with literals := builder.literals.insert (id, slot) expr }
      pure expr

/-- The expression that feeds an input slot: its producer's, else that of its default, else none. -/
def inputOf (body : Body) (demand : Demand) (id : NodeId) (slot : SlotId) :
    Lower (Option ExprId) :=
  match (body.wired.node? id).bind fun node => node.input? slot with
  | none => throw (.missingSlot id slot)
  | some input =>
      match input.binding, input.default with
      | some binding, _ => some <$> outputOf body demand binding.node binding.output
      | none, some value => some <$> literalAt id slot value
      | none, none => pure none

/-- The expression that feeds an input slot which must have one. -/
def operandOf (body : Body) (demand : Demand) (id : NodeId) (slot : SlotId) : Lower ExprId := do
  match ← inputOf body demand id slot with
  | some expr => pure expr
  | none => throw (.missingOperand id slot)

/-- A formal input that no argument is given for: a parameter, or a texture, of its name. -/
def freeInput (body : Body) (id : NodeId) (name : Option String) (type : ValueType)
    (default : Option Literal) : Lower ExprId :=
  let name := body.qualified (name.getD ("arg_" ++ toString id.toNat))
  match Literal.zero? type with
  | some zero => push (.constant (default.getD zero) (some name)) (some type)
  | none => push (.texture name) (some .texture)

/-- Lowers a node, given how its operands and its callee are lowered. -/
def lowerNode (body : Body) (demand : Demand) (inline : Inline) (node : MaterialNode) :
    Lower (Option ExprId) :=
  match node.kind with
  | .output _ => pure none
  | .constant value parameter =>
      some <$> push (.constant value (parameter.map body.qualified)) (some value.type)
  | .textureRef name _ => some <$> push (.texture (body.qualified name)) (some .texture)
  | .textureSample => do
      let image ← operandOf body demand node.id Kind.textureSlot
      let coordinate ← operandOf body demand node.id Kind.coordinateSlot
      let level ← inputOf body demand node.id Kind.levelSlot
      some <$> push (.sample image coordinate level) (some .vec4)
  | .math op => do
      let operands ← node.inputs.mapM fun input => operandOf body demand node.id input.id
      match body.types.find? (node.id, 0) with
      | none => throw (.unresolvedType node.id 0)
      | some type => some <$> push (.math op operands) (some type)
  | .functionInput name type default =>
      match body.arguments.find? node.id with
      | some argument => pure (some argument)
      | none => some <$> freeInput body node.id name type default
  | .functionOutput _ _ => some <$> operandOf body demand node.id 0
  | .call (.resolved callee) => do
      let arguments ← callee.inputs.mapM fun formal => do
        let expr ← operandOf body demand node.id formal.index
        pure (formal.node, expr)
      let outputs ← onExprs (inline callee (body.called node.id callee arguments))
      some <$> push (.call callee.name outputs) none
  | .call (.unresolved path _) => throw (.unresolvedCall node.id path)

def remember (id : NodeId) : Option ExprId → Lower (Option ExprId)
  | none => pure none
  | some expr => do
      modify fun builder => { builder with nodes := builder.nodes.insert id expr }
      pure (some expr)

/-- The value of a node, made now if it is not known. The number bounds how many unfinished nodes
may wait for each other; a chain without repetition is no longer than the body. -/
def demandWithin (body : Body) (inline : Inline) : Nat → Demand
  | bound, id => do
      let builder ← get
      match builder.nodes.find? id with
      | some expr => pure (some expr)
      | none =>
          match body.wired.node? id with
          | none => throw (.missingNode id)
          | some node =>
              match bound with
              | 0 => throw (.circular id)
              | bound + 1 => do
                  let value ← lowerNode body (demandWithin body inline bound) inline node
                  remember id value

def valueOf (body : Body) (inline : Inline) : Demand :=
  demandWithin body inline body.wired.graph.nodes.length

def lowerAll (body : Body) (inline : Inline) : List NodeId → Lower Unit
  | [] => pure ()
  | id :: rest => do
      let _ ← valueOf body inline id
      lowerAll body inline rest

/-- The values of formal outputs that have been lowered. -/
def resultsOf : List Formal → Lower (List ExprId)
  | [] => pure []
  | formal :: rest => do
      let builder ← get
      match builder.nodes.find? formal.node with
      | none => throw (.noValue formal.node)
      | some expr => do
          let exprs ← resultsOf rest
          pure (expr :: exprs)

/-- Lowers the body of a callee. Its own callees are nested less deeply than it is. -/
def inline (callee : Callable) (body : Body) : LowerExprs (List ExprId) :=
  apart do
    lowerAll body
      (fun inner innerBody =>
        if inner.depth < callee.depth then inline inner innerBody
        else throw (.circular 0))
      callee.schedule.order
    resultsOf callee.outputs
termination_by callee.depth

namespace Body

/-- The value of a node of this body; `none` for output blocks. -/
def node (body : Body) (id : NodeId) : Lower (Option ExprId) := valueOf body inline id

def build (body : Body) (order : List NodeId) : Lower Unit := lowerAll body inline order

def input (body : Body) (id : NodeId) (slot : SlotId) : Lower (Option ExprId) :=
  inputOf body (valueOf body inline) id slot

def output (body : Body) (id : NodeId) (slot : SlotId) : Lower ExprId :=
  outputOf body (valueOf body inline) id slot

end Body

structure Result where
  name : String
  expr : ExprId
deriving DecidableEq, Repr

namespace Body

def connected (body : Body) (root : NodeId) : List InputSlot → Lower (List Result)
  | [] => pure []
  | slot :: rest =>
      if slot.binding.isNone then connected body root rest
      else do
        match ← body.input root slot.id with
        | none => connected body root rest
        | some expr => do
            addUse expr
            let results ← connected body root rest
            pure (⟨slot.name, expr⟩ :: results)

def exposed (body : Body) (root : NodeId) : List OutputSlot → Lower (List Result)
  | [] => pure []
  | slot :: rest => do
      let expr ← body.output root slot.id
      addUse expr
      let results ← exposed body root rest
      pure (⟨slot.name, expr⟩ :: results)

/-- The results of a root: for an output block what feeds its connected ports, for any other node
its own outputs. -/
def results (body : Body) (root : NodeId) : Lower (List Result) :=
  match body.wired.node? root with
  | none => throw (.missingNode root)
  | some node =>
      match node.kind with
      | .output _ => body.connected root node.inputs
      | _ => body.exposed root node.outputs

end Body

end MaterialGraph.Lowering
