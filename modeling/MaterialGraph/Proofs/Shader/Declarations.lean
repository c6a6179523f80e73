import MaterialGraph.Proofs.Lowering.Invariant
import MaterialGraph.Proofs.Shader.Functions
import MaterialGraph.Proofs.Wgsl.Declarations

/-!
What the module of a compiled graph declares. The functions of the roots are written one after
another into one module, each from the results it returns: the module declares the uniforms and the
textures that can be reached from there, whatever was shared on the way.
-/

set_option autoImplicit false

namespace MaterialGraph.Shader

open Wgsl

variable {settings : TargetSettings} {wired : WiredMaterial} {compiled : CompiledRoot}
  {table : Parameters} {module : Module} {history : List Expr}

def traced (wired : WiredMaterial) (compiled : CompiledRoot) : List Expr :=
  (returnedResults wired compiled).flatMap (trace compiled.exprs)

theorem meets_portValue (serves : table.Serves compiled.exprs) (block : Block) (port : BlockPort) :
    Meets settings compiled.exprs table (portValue settings compiled block port)
      ((compiled.result? port.name).toList.flatMap (trace compiled.exprs)) := by
  unfold portValue
  cases compiled.result? port.name with
  | none => exact .pure _
  | some id =>
      rw [Option.toList_some, List.flatMap_singleton]
      exact (meets_emit serves id).andPure _

theorem meets_previewValue (serves : table.Serves compiled.exprs) :
    Meets settings compiled.exprs table (previewValue settings compiled)
      ((previewed compiled).toList.flatMap (trace compiled.exprs)) := by
  unfold previewValue previewed
  cases compiled.results with
  | nil => exact .pure _
  | cons result rest =>
      rw [List.head?_cons, Option.map_some, Option.toList_some, List.flatMap_singleton]
      exact (meets_emit serves result.expr).andPure _

/-- A function body adds what it looks at to the record of the module. -/
theorem inFunction_recorded {Value : Type} {body : Emit Value} {exprs : ExprList}
    {met : List Expr} (meets : Meets settings exprs table body met) (idle : Idle table module)
    (recorded : Recorded history module) {value : Value × List Statement} {next : Module}
    (ran : inFunction body module = .ok value next) :
    Idle table next ∧ Recorded (history ++ met) next := by
  obtain ⟨_, start, begun, ranBody⟩ := exists_of_bind_eq_ok ran
  cases begun
  obtain ⟨result, last, emitted, ended⟩ := exists_of_bind_eq_ok ranBody
  have begins : Recorded history module.beginFunction := recorded.of_eq rfl rfl
  obtain ⟨sound, whole⟩ := meets _ _ _ _ idle.sound begins emitted
  cases ended
  exact ⟨⟨sound.declared, rfl⟩, whole.of_eq rfl rfl⟩

theorem rootFunction_recorded (serves : table.Serves compiled.exprs) (idle : Idle table module)
    (recorded : Recorded history module) {function : Function} {next : Module}
    (ran : rootFunction settings wired compiled module = .ok function next) :
    Idle table next ∧ Recorded (history ++ traced wired compiled) next := by
  unfold traced returnedResults
  cases isBlock : block? wired compiled.root with
  | none =>
      simp only [rootFunction, isBlock] at ran
      obtain ⟨_, last, body, ended⟩ := exists_of_bind_eq_ok ran
      cases ended
      exact inFunction_recorded (meets_previewValue serves) idle recorded body
  | some block =>
      simp only [rootFunction, isBlock] at ran
      obtain ⟨_, last, body, ended⟩ := exists_of_bind_eq_ok ran
      cases ended
      have each : ∀ port ∈ block.ports, Meets settings compiled.exprs table
          (portValue settings compiled block port >>= fun value => pure (port, value))
          ((compiled.result? port.name).toList.flatMap (trace compiled.exprs)) :=
        fun port _ => (meets_portValue serves block port).andPure _
      have fields := Meets.mapM each
      rw [← List.flatMap_assoc, ← List.filterMap_eq_flatMap_toList] at fields
      exact inFunction_recorded fields idle recorded body

theorem mapM_rootFunction_recorded {roots : List CompiledRoot}
    (serves : ∀ compiled ∈ roots, table.Serves compiled.exprs) (idle : Idle table module)
    (recorded : Recorded history module) {functions : List Function} {next : Module}
    (ran : (roots.mapM (rootFunction settings wired)) module = .ok functions next) :
    Recorded (history ++ roots.flatMap (traced wired)) next := by
  induction roots generalizing module history functions with
  | nil =>
      cases ran
      rw [List.flatMap_nil, List.append_nil]
      exact recorded
  | cons first rest induction =>
      rw [List.forall_mem_cons] at serves
      rw [List.mapM_cons] at ran
      obtain ⟨function, middle, ranFirst, ranRest⟩ := exists_of_bind_eq_ok ran
      obtain ⟨others, last, ranOthers, ended⟩ := exists_of_bind_eq_ok ranRest
      cases ended
      obtain ⟨idleMiddle, recordedMiddle⟩ := rootFunction_recorded serves.1 idle recorded ranFirst
      rw [List.flatMap_cons, ← List.append_assoc]
      exact induction serves.2 idleMiddle recordedMiddle ranOthers

variable {configuration : Settings} {graph : Material} {whole : CompiledGraph}

theorem emitFunctions_recorded (ok : configuration.compile graph = .ok whole)
    {functions : List Function}
    (emitted : emitFunctions settings whole = .ok (functions, module)) :
    Recorded (whole.compiledRoots.flatMap (traced whole.wired)) module := by
  obtain ⟨table, serves⟩ := CompiledGraph.exists_table ok
  have idle : Idle table Module.empty := ⟨.nil table, rfl⟩
  unfold emitFunctions at emitted
  split at emitted
  · cases emitted
  · rename_i ran
    cases emitted
    exact mapM_rootFunction_recorded serves idle .empty ran

end MaterialGraph.Shader

namespace MaterialGraph.Sample

def sampled : Material :=
  ((Graph.empty "Sampled").insert (.ofKind 0 (.textureRef "albedo" none)))
    |>.insert (.ofKind 1 (.constant (.vec2 .zero .one) (some "corner")))
    |>.insert (.ofKind 2 .textureSample)
    |>.insert (.ofKind 3 (.output .unlit))
    |>.connect ⟨0, 0, 2, 0⟩
    |>.connect ⟨1, 0, 2, 1⟩
    |>.connect ⟨2, 0, 3, 0⟩
    |>.markRoot 3

def sampledWired : WiredMaterial :=
  match sampled.wire .strict with
  | .ok wired => wired
  | .error _ => .bare sampled

def sampledCompiled : CompiledGraph :=
  ⟨sampledWired, sampledWired.fingerprint [3], sampledWired.compileRoots .collectAll [] [3]⟩

theorem sampled_compile :
    Settings.compile ⟨1, .collectAll, .strict, .standard⟩ sampled = .ok sampledCompiled := rfl

end MaterialGraph.Sample

namespace MaterialGraph.Shader

end MaterialGraph.Shader
