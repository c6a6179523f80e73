import MaterialGraph.Proofs.Compile.Parameters
import MaterialGraph.Proofs.Wgsl.Run
import MaterialGraph.Shader

/-!
The functions of a shader module. Every root that compiles gets its function, whatever was emitted
before: its locals are bound in order, all it refers to is declared in the end, and the code of the
values it returns is known beforehand.
-/

set_option autoImplicit false

namespace MaterialGraph.Shader

open Wgsl

def storedCode (settings : TargetSettings) (exprs : ExprList) (storage : ValueType)
    (fallback : Literal) : Option ExprId → Code
  | some id => widen (codeOf settings exprs id) (operandType exprs storage id) storage
  | none => widen (.literal fallback) fallback.type storage

def portCode (settings : TargetSettings) (compiled : CompiledRoot) (block : Block)
    (port : BlockPort) : Code :=
  storedCode settings compiled.exprs port.storage (block.fallback port.name)
    (compiled.result? port.name)

def previewed (compiled : CompiledRoot) : Option ExprId :=
  compiled.results.head?.map Lowering.Result.expr

def previewCode (settings : TargetSettings) (compiled : CompiledRoot) : Code :=
  storedCode settings compiled.exprs .vec4 (.vec4 .zero .zero .zero .one) (previewed compiled)

def returnedCode (settings : TargetSettings) (wired : WiredMaterial) (compiled : CompiledRoot) :
    Returned :=
  match block? wired compiled.root with
  | some block =>
      .record block (block.ports.map fun port => (port, portCode settings compiled block port))
  | none => .colour (previewCode settings compiled)

def rootName (wired : WiredMaterial) (compiled : CompiledRoot) : String :=
  match block? wired compiled.root with
  | some block => functionName (functionStem block) compiled.root
  | none => functionName "preview" compiled.root

def returnedResults (wired : WiredMaterial) (compiled : CompiledRoot) : List ExprId :=
  match block? wired compiled.root with
  | some block => block.ports.filterMap fun port => compiled.result? port.name
  | none => (previewed compiled).toList

/-- The function of a root, in a module with given uniforms and textures. -/
structure Writes (settings : TargetSettings) (wired : WiredMaterial) (uniforms : Parameters)
    (textures : List String) (compiled : CompiledRoot) (function : Function) : Prop where
  name : function.name = rootName wired compiled
  returned : function.returned = returnedCode settings wired compiled
  lets : ∃ ids, Lets settings compiled.exprs uniforms textures ids function.locals
  ready : ∀ id ∈ returnedResults wired compiled,
    Ready settings compiled.exprs ⟨uniforms, textures, function.locals⟩ id

variable {settings : TargetSettings} {wired : WiredMaterial} {compiled : CompiledRoot}
  {table : Parameters} {module : Module}

theorem Writes.declare {uniforms moreUniforms : Parameters} {textures moreTextures : List String}
    {function : Function} (writes : Writes settings wired uniforms textures compiled function)
    (keeps : uniforms.Within moreUniforms) (longer : textures ⊆ moreTextures) :
    Writes settings wired moreUniforms moreTextures compiled function := by
  obtain ⟨ids, lets⟩ := writes.lets
  refine ⟨writes.name, writes.returned, ⟨ids, lets.declare keeps longer⟩, ?_⟩
  have grown : Scope.Extends ⟨uniforms, textures, function.locals⟩
      ⟨moreUniforms, moreTextures, function.locals⟩ := ⟨keeps, longer, List.prefix_rfl⟩
  intro id member
  exact (writes.ready id member).extend grown

theorem mem_returnedResults {block : Block} (isBlock : block? wired compiled.root = some block)
    {port : BlockPort} (listed : port ∈ block.ports) {id : ExprId}
    (found : compiled.result? port.name = some id) : id ∈ returnedResults wired compiled := by
  simp only [returnedResults, isBlock]
  exact List.mem_filterMap.2 ⟨port, listed, found⟩

theorem mem_returnedResults_of_preview (isBlock : block? wired compiled.root = none)
    {id : ExprId} (found : previewed compiled = some id) : id ∈ returnedResults wired compiled := by
  simp only [returnedResults, isBlock]
  exact Option.mem_toList.2 found

structure Idle (table : Parameters) (module : Module) : Prop where
  declared : module.uniforms.Within table
  statements : module.statements = []

theorem Idle.sound {exprs : ExprList} (idle : Idle table module) :
    Sound settings exprs table module.beginFunction := by
  refine ⟨idle.declared, [], rfl, ?_⟩
  rw [Module.beginFunction, idle.statements]
  exact .nil

theorem emits_stored (serves : table.Serves compiled.exprs)
    (sound : Sound settings compiled.exprs table module) (storage : ValueType)
    (fallback : Literal) (id : ExprId) :
    Emits settings compiled.exprs table (fun _ => False) module
      (stored settings compiled.exprs storage id)
      (storedCode settings compiled.exprs storage fallback (some id))
      (fun scope => ∀ other, some id = some other → Ready settings compiled.exprs scope other) := by
  have emitted := (emits_emit serves sound id).imp (fun _ among => absurd among not_false)
    fun _ ready => ready
  apply Emits.bind emitted
  intro next soundNext _ ready
  apply Emits.pure soundNext
  intro other same
  cases same
  exact ready

theorem emits_portValue (serves : table.Serves compiled.exprs)
    (sound : Sound settings compiled.exprs table module) (block : Block) (port : BlockPort) :
    Emits settings compiled.exprs table (fun _ => False) module
      (portValue settings compiled block port) (portCode settings compiled block port)
      (fun scope => ∀ id, compiled.result? port.name = some id →
        Ready settings compiled.exprs scope id) := by
  unfold portValue portCode
  cases compiled.result? port.name with
  | none => exact Emits.pure sound fun id absent => by cases absent
  | some id => exact emits_stored serves sound port.storage _ id

theorem emits_previewValue (serves : table.Serves compiled.exprs)
    (sound : Sound settings compiled.exprs table module) :
    Emits settings compiled.exprs table (fun _ => False) module (previewValue settings compiled)
      (previewCode settings compiled)
      (fun scope => ∀ id, previewed compiled = some id →
        Ready settings compiled.exprs scope id) := by
  unfold previewValue previewCode previewed
  cases compiled.results with
  | nil => exact Emits.pure sound fun id absent => by cases absent
  | cons result rest => exact emits_stored serves sound .vec4 _ result.expr

/-- A function body starts without locals and leaves none behind. -/
theorem inFunction_run {Value : Type} {body : Emit Value} {value : Value} {exprs : ExprList}
    {post : Scope → Prop} (idle : Idle table module)
    (emits : ∀ next, Sound settings exprs table next →
      Emits settings exprs table (fun _ => False) next body value post) :
    ∃ statements next ids, inFunction body module = .ok (value, statements) next ∧
      Idle table next ∧ module.uniforms.Within next.uniforms ∧ module.textures ⊆ next.textures ∧
      Lets settings exprs next.uniforms next.textures ids statements ∧
      post ⟨next.uniforms, next.textures, statements⟩ := by
  obtain ⟨next, ran, sound, grown, _, holds⟩ := emits module.beginFunction idle.sound
  obtain ⟨ids, _, lets⟩ := sound.lets
  refine ⟨next.statements, { next with statements := [] }, ids, ?_, ⟨sound.declared, rfl⟩,
    grown.uniforms, grown.textures, lets, holds⟩
  exact bind_of_ok ran _

theorem rootFunction_run (serves : table.Serves compiled.exprs) (idle : Idle table module) :
    ∃ function next, rootFunction settings wired compiled module = .ok function next ∧
      Idle table next ∧ module.uniforms.Within next.uniforms ∧ module.textures ⊆ next.textures ∧
      Writes settings wired next.uniforms next.textures compiled function := by
  unfold rootFunction
  cases isBlock : block? wired compiled.root with
  | none =>
      have body : ∀ next, Sound settings compiled.exprs table next → Emits settings compiled.exprs
          table (fun _ => False) next (previewValue settings compiled)
          (previewCode settings compiled) _ := fun _ sound => emits_previewValue serves sound
      obtain ⟨statements, next, ids, ran, idleNext, uniforms, textures, lets, ready⟩ :=
        inFunction_run idle body
      refine ⟨_, next, bind_of_ok ran _, idleNext, uniforms, textures, ?_, ?_, ⟨ids, lets⟩, ?_⟩
      · simp only [rootName, isBlock]
      · simp only [returnedCode, isBlock]
      · simp only [returnedResults, isBlock]
        intro id member
        exact ready id (Option.mem_toList.1 member)
  | some block =>
      have fields : ∀ next, Sound settings compiled.exprs table next → Emits settings
          compiled.exprs table (fun _ => False) next
          (block.ports.mapM fun port => do
            let value ← portValue settings compiled block port
            pure (port, value))
          (block.ports.map fun port => (port, portCode settings compiled block port))
          (fun scope => ∀ port ∈ block.ports, ∀ id, compiled.result? port.name = some id →
            Ready settings compiled.exprs scope id) := by
        intro next sound
        apply Emits.mapM
        · intro port old new grown ready id found
          exact (ready id found).extend grown
        · intro port _ after soundAfter
          apply Emits.bind (emits_portValue serves soundAfter block port)
          intro last soundLast _ ready
          exact Emits.pure soundLast ready
        · exact sound
      obtain ⟨statements, next, ids, ran, idleNext, uniforms, textures, lets, ready⟩ :=
        inFunction_run idle fields
      refine ⟨_, next, bind_of_ok ran _, idleNext, uniforms, textures, ?_, ?_, ⟨ids, lets⟩, ?_⟩
      · simp only [rootName, isBlock]
      · simp only [returnedCode, isBlock]
      · simp only [returnedResults, isBlock]
        intro id member
        obtain ⟨port, listed, found⟩ := List.mem_filterMap.1 member
        exact ready port listed id found

theorem mapM_rootFunction_run {roots : List CompiledRoot}
    (serves : ∀ compiled ∈ roots, table.Serves compiled.exprs) (idle : Idle table module) :
    ∃ functions next, (roots.mapM (rootFunction settings wired)) module = .ok functions next ∧
      module.uniforms.Within next.uniforms ∧ module.textures ⊆ next.textures ∧
      List.Forall₂ (Writes settings wired next.uniforms next.textures) roots functions := by
  induction roots generalizing module with
  | nil => exact ⟨[], module, rfl, .refl _, List.Subset.refl _, .nil⟩
  | cons first rest induction =>
      rw [List.forall_mem_cons] at serves
      obtain ⟨function, next, ran, idleNext, uniforms, textures, writes⟩ :=
        rootFunction_run serves.1 idle
      obtain ⟨functions, last, ranRest, moreUniforms, moreTextures, written⟩ :=
        induction serves.2 idleNext
      refine ⟨function :: functions, last, ?_, uniforms.trans moreUniforms,
        List.Subset.trans textures moreTextures,
        .cons (writes.declare moreUniforms moreTextures) written⟩
      rw [List.mapM_cons, bind_of_ok ran, bind_of_ok ranRest]
      rfl

/-- Assembly of a compiled graph never fails, and writes the function of every compiled root. -/
theorem emitFunctions_run {configuration : Settings} {graph : Material} {compiled : CompiledGraph}
    (ok : configuration.compile graph = .ok compiled) (settings : TargetSettings) :
    ∃ functions module, emitFunctions settings compiled = .ok (functions, module) ∧
      List.Forall₂ (Writes settings compiled.wired module.uniforms module.textures)
        compiled.compiledRoots functions := by
  obtain ⟨table, serves⟩ := CompiledGraph.exists_table ok
  have idle : Idle table Module.empty := ⟨.nil table, rfl⟩
  obtain ⟨functions, module, ran, _, _, written⟩ := mapM_rootFunction_run serves idle
  refine ⟨functions, module, ?_, written⟩
  unfold emitFunctions
  rw [ran]

end MaterialGraph.Shader

namespace MaterialGraph.Sample

def squared : Material :=
  ((Graph.empty "Squared").insert (.ofKind 0 (.constant (.scalar .one) (some "gain"))))
    |>.insert (.ofKind 1 (.math .sin))
    |>.insert (.ofKind 2 (.math .multiply))
    |>.insert (.ofKind 3 (.output .unlit))
    |>.connect ⟨0, 0, 1, 0⟩
    |>.connect ⟨1, 0, 2, 0⟩
    |>.connect ⟨1, 0, 2, 1⟩
    |>.connect ⟨2, 0, 3, 0⟩
    |>.markRoot 3

def squaredWired : WiredMaterial :=
  match squared.wire .strict with
  | .ok wired => wired
  | .error _ => .bare squared

def squaredCompiled : CompiledGraph :=
  ⟨squaredWired, squaredWired.fingerprint [3], squaredWired.compileRoots .collectAll [] [3]⟩

theorem squared_compile {configuration : Settings} (strict : configuration.linkPolicy = .strict)
    (collects : configuration.errorPolicy = .collectAll) :
    configuration.compile squared = .ok squaredCompiled := by
  unfold Settings.compile
  rw [strict, collects]
  rfl

end MaterialGraph.Sample
