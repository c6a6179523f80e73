import MaterialGraph.Compile.Basic
import MaterialGraph.Wgsl.Module

/-!
Shader modules. Each compiled root becomes a function: for an output block one that returns a
record with a value for every port, for any other root one that returns a colour for preview. Ports
that nothing feeds take the fallback of their block.
-/

set_option autoImplicit false

namespace MaterialGraph

/-- A shader module and the names of its functions, in the order of the roots. -/
structure Shader where
  source : String
  functions : List String
deriving DecidableEq, Repr

namespace Shader

open Wgsl

/-- Lower case, with an underscore where a capital follows a small letter. -/
def snakeCase (afterSmall : Bool) : List Char → List Char
  | [] => []
  | char :: rest =>
      let tail := char.toLower :: snakeCase char.isLower rest
      if char.isUpper ∧ afterSmall then '_' :: tail else tail

def fieldName (port : String) : String := String.ofList (snakeCase false port.toList)

def structName : Block → String
  | .surface => "SurfaceOutput"
  | .unlit => "UnlitOutput"
  | .vertex => "VertexOutput"

def functionStem : Block → String
  | .surface => "surface"
  | .unlit => "unlit"
  | .vertex => "vertex"

def functionName (stem : String) (root : NodeId) : String := stem ++ "_" ++ toString root.toNat

def structText (block : Block) : String :=
  "struct " ++ structName block ++ " \x7b\n" ++
    String.join (block.ports.map fun port =>
      "    " ++ fieldName port.name ++ ": " ++ typeName port.storage ++ ",\n") ++
    "\x7d\n"

/-- Converts a value for a port. A scalar becomes an opaque grey where four lanes are stored. -/
def widen (code : Code) (source target : ValueType) : Code :=
  if source = .scalar ∧ target = .vec4 then
    code.swizzle source [.lane .x, .lane .x, .lane .x, .one]
  else code.convert source target

/-- The value of an expression, converted; an expression without a type counts as one that needs
no conversion. -/
def stored (settings : TargetSettings) (exprs : ExprList) (storage : ValueType) (id : ExprId) :
    Emit Code := do
  let code ← emit settings exprs id
  pure (widen code (operandType exprs storage id) storage)

/-- The value of a port: that of the result with its name, else its fallback. -/
def portValue (settings : TargetSettings) (compiled : CompiledRoot) (block : Block)
    (port : BlockPort) : Emit Code :=
  match compiled.result? port.name with
  | some id => stored settings compiled.exprs port.storage id
  | none =>
      let fallback := block.fallback port.name
      pure (widen (.literal fallback) fallback.type port.storage)

/-- The value of a preview: the first result as a colour, opaque black if there is none. -/
def previewValue (settings : TargetSettings) (compiled : CompiledRoot) : Emit Code :=
  match compiled.results with
  | result :: _ => stored settings compiled.exprs .vec4 result.expr
  | [] => pure (.literal (.vec4 .zero .zero .zero .one))

/-- Emits a function body from its start, and takes the locals it needs. -/
def inFunction {Value : Type} (body : Emit Value) : Emit (Value × List Statement) := do
  modify Module.beginFunction
  let value ← body
  let module ← get
  let (statements, module) := module.takeStatements
  set module
  pure (value, statements)

/-- What a function returns: a record with a value for each port of a block, or a colour. -/
inductive Returned where
  | record (block : Block) (fields : List (BlockPort × Code))
  | colour (value : Code)

namespace Returned

def values : Returned → List Code
  | record _ fields => fields.map Prod.snd
  | colour value => [value]

def typeName : Returned → String
  | record block _ => structName block
  | colour _ => Wgsl.typeName .vec4

def text : Returned → String
  | record block fields =>
      "    var out: " ++ structName block ++ ";\n" ++
        String.join (fields.map fun (port, value) =>
          "    out." ++ fieldName port.name ++ " = " ++ value.text ++ ";\n") ++
        "    return out;\n"
  | colour value => "    return " ++ value.text ++ ";\n"

end Returned

/-- A function without parameters: its locals in order, and what it returns. -/
structure Function where
  name : String
  locals : List Statement
  returned : Returned

def Function.text (function : Function) : String :=
  "fn " ++ function.name ++ "() -> " ++ function.returned.typeName ++ " \x7b\n" ++
    String.join (function.locals.map fun statement => "    " ++ statement.text ++ "\n") ++
    function.returned.text ++ "\x7d\n"

def blockFunction (settings : TargetSettings) (compiled : CompiledRoot) (block : Block) :
    Emit Function := do
  let (fields, locals) ← inFunction (block.ports.mapM fun port => do
    let value ← portValue settings compiled block port
    pure (port, value))
  pure ⟨functionName (functionStem block) compiled.root, locals, .record block fields⟩

def previewFunction (settings : TargetSettings) (compiled : CompiledRoot) : Emit Function := do
  let (value, locals) ← inFunction (previewValue settings compiled)
  pure ⟨functionName "preview" compiled.root, locals, .colour value⟩

def block? (wired : WiredMaterial) (root : NodeId) : Option Block :=
  match wired.node? root with
  | some ⟨_, _, .output block, _, _⟩ => some block
  | _ => none

def rootFunction (settings : TargetSettings) (wired : WiredMaterial) (compiled : CompiledRoot) :
    Emit Function :=
  match block? wired compiled.root with
  | some block => blockFunction settings compiled block
  | none => previewFunction settings compiled

/-- The output blocks among the roots, each once. -/
def blocks (compiled : CompiledGraph) : List Block :=
  (compiled.compiledRoots.filterMap fun root => block? compiled.wired root.root).foldl
    (fun found block => if found.contains block then found else found ++ [block]) []

/-- The functions of a compiled graph, and what they declare; roots that failed are left out. -/
def emitFunctions (settings : TargetSettings) (compiled : CompiledGraph) :
    Except ParameterConflict (List Function × Module) :=
  match (compiled.compiledRoots.mapM (rootFunction settings compiled.wired)) Module.empty with
  | .error conflict _ => .error conflict
  | .ok functions module => .ok (functions, module)

/-- The text of a module: what it declares, the records of its blocks, and its functions. -/
def moduleText (settings : TargetSettings) (compiled : CompiledGraph) (functions : List Function)
    (module : Module) : String :=
  "// blueprint " ++ compiled.digest.hex ++ "\n\n" ++
    Module.declarations settings module.uniforms module.textures ++
    String.join ((blocks compiled).map fun block => "\n" ++ structText block) ++
    String.join (functions.map fun function => "\n" ++ function.text)

def ofCompiled (settings : TargetSettings) (compiled : CompiledGraph) :
    Except ParameterConflict Shader :=
  match emitFunctions settings compiled with
  | .error conflict => .error conflict
  | .ok (functions, module) =>
      .ok ⟨moduleText settings compiled functions module, functions.map Function.name⟩

end Shader

end MaterialGraph
