import MaterialGraph.Expr.Parameters
import MaterialGraph.Settings.Target
import MaterialGraph.Wgsl.Code

/-!
Emitting expressions into a shader module. The module collects the uniforms and textures that are
used, in order of first use, and the locals of the function being written; a composite value that
is used often enough becomes a local the first time it is emitted.
-/

set_option autoImplicit false

namespace MaterialGraph.Wgsl

structure Statement where
  name : String
  type : ValueType
  value : Code

def Statement.text (statement : Statement) : String :=
  "let " ++ statement.name ++ ": " ++ typeName statement.type ++ " = " ++
    statement.value.text ++ ";"

/-- What has been declared so far, and the body being written: its statements, and the expressions
that already have a local. -/
structure Module where
  uniforms : Parameters
  textures : List String
  statements : List Statement
  locals : Table ExprId String

namespace Module

def empty : Module := ⟨[], [], [], []⟩

/-- Starts a function body: the locals of the last one are out of scope. -/
def beginFunction (module : Module) : Module := { module with locals := [] }

def takeStatements (module : Module) : List Statement × Module :=
  (module.statements, { module with statements := [] })

def addUniform (module : Module) (name : String) (type : ValueType) : Module :=
  { module with uniforms := module.uniforms ++ [(name, type)] }

def addTexture (module : Module) (name : String) : Module :=
  { module with textures := module.textures ++ [name] }

def addStatement (module : Module) (statement : Statement) : Module :=
  { module with statements := module.statements ++ [statement] }

def line (text : String) : String := text ++ "\n"

/-- The uniform block and its binding; without uniforms there is none. -/
def uniformBlock (settings : TargetSettings) (uniforms : List (String × ValueType)) : String :=
  if uniforms.isEmpty then ""
  else
    line ("struct " ++ settings.uniformStruct ++ " \x7b") ++
    String.join (uniforms.map fun (name, type) =>
      line ("    " ++ name ++ ": " ++ typeName type ++ ",")) ++
    line "\x7d\n" ++
    line ("@group(" ++ toString settings.bindGroup.toNat ++ ") @binding(0) var<uniform> " ++
      settings.uniformBinding ++ ": " ++ settings.uniformStruct ++ ";")

/-- A texture and its sampler, at two consecutive bindings. -/
def textureBinding (settings : TargetSettings) (binding : Nat) (name : String) : String :=
  line ("@group(" ++ toString settings.bindGroup.toNat ++ ") @binding(" ++ toString binding ++
    ") var " ++ name ++ ": texture_2d<f32>;") ++
  line ("@group(" ++ toString settings.bindGroup.toNat ++ ") @binding(" ++ toString (binding + 1) ++
    ") var " ++ samplerName name ++ ": sampler;")

def textureBindings (settings : TargetSettings) : Nat → List String → String
  | _, [] => ""
  | binding, name :: rest =>
      textureBinding settings binding name ++ textureBindings settings (binding + 2) rest

def declarations (settings : TargetSettings) (uniforms : List (String × ValueType))
    (textures : List String) : String :=
  uniformBlock settings uniforms ++
    textureBindings settings (if uniforms.isEmpty then 0 else 1) textures

end Module

/-- Emission may meet a uniform at a second type; what was declared before stays declared. -/
abbrev Emit := EStateM ParameterConflict Module

def declareUniform (name : String) (type : ValueType) : Emit Unit := fun module =>
  match module.uniforms.declare name type with
  | .ok (_, true) => .ok () (module.addUniform name type)
  | .ok (_, false) => .ok () module
  | .error conflict => .error conflict module

def declareTexture (name : String) : Emit Unit :=
  modify fun module =>
    if module.textures.contains name then module else module.addTexture name

def localName (id : ExprId) : String := "e" ++ toString id

/-- Binds an emitted value to a local if it is shared. -/
def share (settings : TargetSettings) (id : ExprId) (expr : Expr) (code : Code) : Emit Code :=
  match expr.type with
  | none => pure code
  | some type =>
      if expr.isComposite ∧ settings.shareThreshold.toNat < expr.uses then do
        modify fun module =>
          { module.addStatement ⟨localName id, type, code⟩ with
            locals := module.locals.insert id (localName id) }
        pure (.shared (localName id))
      else pure code

/-- The type an expression has as an operand. -/
def operandType (exprs : ExprList) (missing : ValueType) (id : ExprId) : ValueType :=
  match exprs[id]? with
  | some expr => expr.type.getD missing
  | none => missing

/-- Emits an expression by its kind, given how its operands are emitted. -/
def emitKind (settings : TargetSettings) (exprs : ExprList) (operand : ExprId → Emit Code)
    (expr : Expr) : Emit Code :=
  match expr.kind with
  | .constant value _ =>
      match expr.parameter? with
      | some (name, type) => do
          declareUniform name type
          pure (.uniform settings.uniformBinding name)
      | none => pure (.literal value)
  | .texture name => do
      declareTexture name
      pure (.texture name)
  | .sample image coordinate level => do
      let image ← operand image
      let coordinate ← operand coordinate
      match level with
      | none => pure (.sample image coordinate none)
      | some level => do
          let level ← operand level
          pure (.sample image coordinate (some level))
  | .swizzle source components => do
      let code ← operand source
      pure (code.swizzle (operandType exprs .vec4 source) components)
  | .math op operands => do
      let lowered ← operands.mapM fun id => do
        let code ← operand id
        pure (code, operandType exprs .scalar id)
      pure (.math op lowered (expr.type.getD .scalar))
  | .call _ outputs => do
      let lowered ← outputs.mapM operand
      pure (lowered.head?.getD .nothing)
  | .result aggregate index =>
      match exprs[aggregate]? with
      | some ⟨.call _ outputs, _, _⟩ =>
          match outputs[index]? with
          | some output => operand output
          | none => pure .nothing
      | _ => operand aggregate

/-- Emits an expression, or refers to its local. Operands stand before the expressions that use
them. -/
def emit (settings : TargetSettings) (exprs : ExprList) (id : ExprId) : Emit Code := do
  let module ← get
  match module.locals.find? id with
  | some name => pure (.shared name)
  | none =>
      match exprs[id]? with
      | none => pure .nothing
      | some expr => do
          let code ← emitKind settings exprs
            (fun operand => if operand < id then emit settings exprs operand else pure .nothing)
            expr
          share settings id expr code
termination_by id

end MaterialGraph.Wgsl
