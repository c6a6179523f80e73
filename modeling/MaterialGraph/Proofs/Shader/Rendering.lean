import MaterialGraph.Proofs.Compile.Sharing
import MaterialGraph.Proofs.Shader.Functions
import MaterialGraph.Proofs.Shader.Previews
import MaterialGraph.Proofs.Wgsl.Askers

/-!
How often the functions of a shader module render the expressions of their roots. What is rendered
can be noted on the way without a change to what is written. An expression with a local is rendered
once; a sample or an operation that is used directly only once has none, and is rendered as often
as a selection of its lanes or a result of a call that stands between it and its consumers.
-/

set_option autoImplicit false

namespace MaterialGraph.Shader

open Wgsl

section Noting

variable (settings : TargetSettings) (wired : WiredMaterial) (compiled : CompiledRoot)

def storedNoting (exprs : ExprList) (storage : ValueType) (id : ExprId) :
    Emit (Code × List ExprId) := do
  let (code, rendered) ← emitNoting settings exprs id
  pure (widen code (operandType exprs storage id) storage, rendered)

def portValueNoting (block : Block) (port : BlockPort) : Emit (Code × List ExprId) :=
  match compiled.result? port.name with
  | some id => storedNoting settings compiled.exprs port.storage id
  | none =>
      let fallback := block.fallback port.name
      pure (widen (.literal fallback) fallback.type port.storage, [])

def previewValueNoting : Emit (Code × List ExprId) :=
  match compiled.results with
  | result :: _ => storedNoting settings compiled.exprs .vec4 result.expr
  | [] => pure (.literal (.vec4 .zero .zero .zero .one), [])

def rootFunctionNoting : Emit (Function × List ExprId) :=
  match block? wired compiled.root with
  | some block => do
      let ((fields, rendered), locals) ← inFunction (gather (fun port => do
        let (value, rendered) ← portValueNoting settings compiled block port
        pure ((port, value), rendered)) block.ports)
      pure (⟨functionName (functionStem block) compiled.root, locals, .record block fields⟩,
        rendered)
  | none => do
      let ((value, rendered), locals) ← inFunction (previewValueNoting settings compiled)
      pure (⟨functionName "preview" compiled.root, locals, .colour value⟩, rendered)

def emitFunctionsNoting (compiled : CompiledGraph) :
    Except ParameterConflict (List (Function × List ExprId) × Module) :=
  match (compiled.compiledRoots.mapM (rootFunctionNoting settings compiled.wired)) Module.empty with
  | .error conflict _ => .error conflict
  | .ok written module => .ok (written, module)

end Noting

section Forgetting

variable {settings : TargetSettings} {wired : WiredMaterial} {compiled : CompiledRoot}

theorem storedNoting_forget (exprs : ExprList) (storage : ValueType) (id : ExprId) :
    Prod.fst <$> storedNoting settings exprs storage id = stored settings exprs storage id := by
  simp only [storedNoting, stored, ← emitNoting_forget, map_bind, map_pure, bind_map_left]

theorem portValueNoting_forget (block : Block) (port : BlockPort) :
    Prod.fst <$> portValueNoting settings compiled block port =
      portValue settings compiled block port := by
  unfold portValueNoting portValue
  cases compiled.result? port.name with
  | some id => exact storedNoting_forget ..
  | none => rfl

theorem previewValueNoting_forget :
    Prod.fst <$> previewValueNoting settings compiled = previewValue settings compiled := by
  unfold previewValueNoting previewValue
  cases compiled.results with
  | cons result rest => exact storedNoting_forget ..
  | nil => rfl

theorem rootFunctionNoting_forget :
    Prod.fst <$> rootFunctionNoting settings wired compiled =
      rootFunction settings wired compiled := by
  have body : ∀ {Value : Type} {noting : Emit (Value × List ExprId)} {plain : Emit Value},
      Prod.fst <$> noting = plain →
      (fun value : (Value × List ExprId) × List Statement => (value.1.1, value.2)) <$>
        inFunction noting = inFunction plain := by
    rintro Value noting plain rfl
    simp only [inFunction, map_bind, map_pure, bind_map_left]
  unfold rootFunctionNoting rootFunction
  cases block? wired compiled.root with
  | none =>
      simp only [previewFunction, ← body previewValueNoting_forget, map_bind, map_pure,
        bind_map_left]
  | some block =>
      have each : ∀ port ∈ block.ports,
          Prod.fst <$> (do
            let (value, rendered) ← portValueNoting settings compiled block port
            pure ((port, value), rendered)) =
          (do
            let value ← portValue settings compiled block port
            pure (port, value)) := by
        intro port _
        simp only [← portValueNoting_forget, map_bind, map_pure, bind_map_left]
      simp only [blockFunction, ← body (gather_forget each), map_bind, map_pure, bind_map_left]

/-- Without what is noted, these are the functions of the module. -/
theorem emitFunctionsNoting_forget (settings : TargetSettings) (compiled : CompiledGraph) :
    (emitFunctionsNoting settings compiled).map
        (fun written => (written.1.map Prod.fst, written.2)) =
      emitFunctions settings compiled := by
  have roots : List.map Prod.fst <$>
      compiled.compiledRoots.mapM (rootFunctionNoting settings compiled.wired) =
        compiled.compiledRoots.mapM (rootFunction settings compiled.wired) :=
    map_mapM fun _ _ => rootFunctionNoting_forget
  unfold emitFunctions emitFunctionsNoting
  simp only [← roots, Functor.map, EStateM.map]
  cases compiled.compiledRoots.mapM (rootFunctionNoting settings compiled.wired) Module.empty
  · rfl
  · rfl

end Forgetting

variable {settings : TargetSettings} {wired : WiredMaterial} {compiled : CompiledRoot}
  {table : Parameters} {module : Module}

/-- What the function of a root renders: its locals are the rendered expressions that are shared, in
that order; each of these is rendered once at most, and any other expression as often as a returned
value or the code of a rendered expression needs it. -/
structure Renders (settings : TargetSettings) (wired : WiredMaterial) (compiled : CompiledRoot)
    (function : Function) (rendered : List ExprId) : Prop where
  returned : function.returned = returnedCode settings wired compiled
  locals : function.locals = rendered.filterMap (local? settings compiled.exprs)
  tally : Tally settings compiled.exprs [] (returnedResults wired compiled) rendered

theorem tallies_storedNoting {exprs : ExprList} (serves : table.Serves exprs)
    (ordered : exprs.OrderedFrom 0) (storage : ValueType) (id : ExprId) :
    Tallies settings exprs table (storedNoting settings exprs storage id) [id] :=
  (tallies_emitNoting serves ordered id).andPure fun code =>
    widen code (operandType exprs storage id) storage

theorem tallies_portValueNoting (serves : table.Serves compiled.exprs)
    (ordered : compiled.exprs.OrderedFrom 0) (block : Block) (port : BlockPort) :
    Tallies settings compiled.exprs table (portValueNoting settings compiled block port)
      (compiled.result? port.name).toList := by
  unfold portValueNoting
  cases compiled.result? port.name with
  | none => exact .pure _
  | some id => exact tallies_storedNoting serves ordered port.storage id

theorem tallies_previewValueNoting (serves : table.Serves compiled.exprs)
    (ordered : compiled.exprs.OrderedFrom 0) :
    Tallies settings compiled.exprs table (previewValueNoting settings compiled)
      (previewed compiled).toList := by
  unfold previewValueNoting previewed
  cases compiled.results with
  | nil => exact .pure _
  | cons result rest => exact tallies_storedNoting serves ordered .vec4 result.expr

/-- A function body starts without locals, and the locals that it leaves are what it rendered. -/
theorem inFunction_tallied {Value : Type} {body : Emit (Value × List ExprId)} {exprs : ExprList}
    {asked : List ExprId} (tallies : Tallies settings exprs table body asked)
    (idle : Idle table module) {value : Value} {rendered : List ExprId}
    {statements : List Statement} {next : Module}
    (ran : inFunction body module = .ok ((value, rendered), statements) next) :
    statements = rendered.filterMap (local? settings exprs) ∧
      Tally settings exprs [] asked rendered := by
  obtain ⟨_, start, begun, ranBody⟩ := exists_of_bind_eq_ok ran
  cases begun
  obtain ⟨result, last, emitted, ended⟩ := exists_of_bind_eq_ok ranBody
  cases ended
  obtain ⟨sound, keys, tally⟩ := tallies _ _ _ _ idle.sound emitted
  obtain ⟨ids, locals, lets⟩ := sound.lets
  have bound : ids = rendered.filter (binds settings exprs) := by
    rw [locals, Table.keys, List.map_map] at keys
    simpa [Module.beginFunction, Table.keys, Function.comp_def] using keys
  refine ⟨?_, tally⟩
  rw [← filterMap_local?, ← bound]
  exact lets.statements_eq

theorem rootFunction_rendered (serves : table.Serves compiled.exprs)
    (ordered : compiled.exprs.OrderedFrom 0) (idle : Idle table module) {function : Function}
    {rendered : List ExprId} {next : Module}
    (ran : rootFunctionNoting settings wired compiled module = .ok (function, rendered) next) :
    Idle table next ∧ Renders settings wired compiled function rendered := by
  have plain : rootFunction settings wired compiled module = .ok function next :=
    run_of_forget rootFunctionNoting_forget ran
  obtain ⟨written, last, ranToo, idleNext, _, _, writes⟩ : ∃ written last,
      rootFunction settings wired compiled module = .ok written last ∧ Idle table last ∧
        module.uniforms.Within last.uniforms ∧ module.textures ⊆ last.textures ∧
        Writes settings wired last.uniforms last.textures compiled written :=
    rootFunction_run serves idle
  cases ranToo.symm.trans plain
  suffices body : function.locals = rendered.filterMap (local? settings compiled.exprs) ∧
      Tally settings compiled.exprs [] (returnedResults wired compiled) rendered from
    ⟨idleNext, writes.returned, body.1, body.2⟩
  unfold rootFunctionNoting at ran
  unfold returnedResults
  cases isBlock : block? wired compiled.root with
  | none =>
      rw [isBlock] at ran
      obtain ⟨_, last, body, ended⟩ := exists_of_bind_eq_ok ran
      cases ended
      exact inFunction_tallied (tallies_previewValueNoting serves ordered) idle body
  | some block =>
      rw [isBlock] at ran
      obtain ⟨_, last, body, ended⟩ := exists_of_bind_eq_ok ran
      cases ended
      have each : ∀ port ∈ block.ports, Tallies settings compiled.exprs table
          (do
            let (value, rendered) ← portValueNoting settings compiled block port
            pure ((port, value), rendered))
          (compiled.result? port.name).toList :=
        fun port _ => (tallies_portValueNoting serves ordered block port).andPure _
      have fields := Tallies.gather each
      rw [← List.filterMap_eq_flatMap_toList] at fields
      exact inFunction_tallied fields idle body

theorem mapM_rootFunction_rendered {roots : List CompiledRoot}
    (serves : ∀ compiled ∈ roots, table.Serves compiled.exprs)
    (ordered : ∀ compiled ∈ roots, compiled.exprs.OrderedFrom 0) (idle : Idle table module)
    {written : List (Function × List ExprId)} {next : Module}
    (ran : (roots.mapM (rootFunctionNoting settings wired)) module = .ok written next) :
    List.Forall₂ (fun root entry => Renders settings wired root entry.1 entry.2) roots written := by
  induction roots generalizing module written with
  | nil =>
      cases ran
      exact .nil
  | cons first rest induction =>
      rw [List.forall_mem_cons] at serves ordered
      rw [List.mapM_cons] at ran
      obtain ⟨entry, middle, ranFirst, ranRest⟩ := exists_of_bind_eq_ok ran
      obtain ⟨others, last, ranOthers, ended⟩ := exists_of_bind_eq_ok ranRest
      cases ended
      obtain ⟨idleMiddle, renders⟩ := rootFunction_rendered serves.1 ordered.1 idle ranFirst
      exact .cons renders (induction serves.2 ordered.2 idleMiddle ranOthers)

theorem count_returnedResults_le (wired : WiredMaterial) (compiled : CompiledRoot) (id : ExprId) :
    (returnedResults wired compiled).count id ≤
      (compiled.results.map Lowering.Result.expr).count id := by
  unfold returnedResults
  cases block? wired compiled.root with
  | none =>
      unfold previewed
      cases compiled.results with
      | nil => exact Nat.le_refl 0
      | cons result rest => exact (List.singleton_sublist.2 List.mem_cons_self).count_le id
  | some block =>
      have names : (block.ports.map BlockPort.name).Nodup := by cases block <;> decide
      have chosen : (block.ports.filterMap fun port => compiled.result? port.name) =
          ((block.ports.map BlockPort.name).filterMap fun name =>
            compiled.results.find? fun result => result.name = name).map Lowering.Result.expr := by
        rw [List.filterMap_map, List.map_filterMap]
        rfl
      simp only [chosen]
      have distinct := names.filterMap (f := fun name =>
        compiled.results.find? fun result => result.name = name) (by
          intro name other result found foundOther
          have named := List.find?_some found
          have namedToo := List.find?_some foundOther
          simp only [decide_eq_true_eq] at named namedToo
          exact named.symm.trans namedToo)
      have inside : ((block.ports.map BlockPort.name).filterMap fun name =>
          compiled.results.find? fun result => result.name = name) ⊆ compiled.results := by
        intro result member
        obtain ⟨name, _, found⟩ := List.mem_filterMap.1 member
        exact List.mem_of_find?_eq_some found
      have among := (List.subperm_of_subset distinct inside).countP_le
        fun result => result.expr == id
      simpa only [List.count, List.countP_map, Function.comp_def] using among

end MaterialGraph.Shader

namespace MaterialGraph

namespace Lowering

theorem Reported.exists_type {exprs : ExprList} {body : Body} {order : List NodeId} {root : NodeId}
    {node : MaterialNode} {results : List Result}
    (reported : Reported exprs body root node results) (typed : TypedBody exprs body)
    (checked : body.wired.Checked order body.types) (member : root ∈ order)
    (found : body.wired.node? root = some node) {result : Result} (listed : result ∈ results) :
    ∃ type, exprs.HasType result.expr type := by
  by_cases isBlock : ∃ block, node.kind = .output block
  · obtain ⟨block, kind⟩ := isBlock
    obtain ⟨type, hasType, _⟩ :=
      reported.numeric_of_block typed (checked.valid root member) found kind listed
    exact ⟨type, hasType⟩
  · have recorded := reported.recorded typed checked member found (not_exists.1 isBlock)
    obtain ⟨_, _, type, _, hasType⟩ := exists_related_of_mem recorded.flip listed
    exact ⟨type, hasType⟩

end Lowering

namespace Wired

open Lowering

theorem exists_type_of_result {wired : WiredMaterial} (coherent : wired.Coherent)
    {policy : ErrorPolicy} {root : NodeId} {compiled : CompiledRoot}
    (ok : wired.compileRoot policy root = .ok compiled) {result : Result}
    (listed : result ∈ compiled.results) : ∃ type, compiled.exprs.HasType result.expr type := by
  obtain ⟨checked, member, _, _, node, found, reported⟩ := compiled_sound coherent ok
  have start : ExprList.Extends [] compiled.exprs := List.nil_prefix
  exact reported.exists_type ((ready_top checked).typed.extend start) checked member found listed

end Wired

namespace Shader

open Wgsl

/-- Each selection of lanes and each result of a call is held once, and nothing is held more often
than a counter can count. -/
structure Unforked (compiled : CompiledRoot) : Prop where
  parts : ∀ id expr, compiled.exprs[id]? = some expr → expr.isPart = true → compiled.holders id ≤ 1
  counted : ∀ id, compiled.holders id < 2 ^ 32

variable {settings : TargetSettings} {wired : WiredMaterial} {compiled : CompiledRoot}

theorem isShared_of_uses {policy : ErrorPolicy}
    (ok : wired.compileRoot policy compiled.root = .ok compiled) {id : ExprId} {expr : Expr}
    (found : compiled.exprs[id]? = some expr) (composite : expr.isComposite = true)
    (often : settings.shareThreshold.toNat < expr.uses) : isShared settings expr = true := by
  obtain ⟨_, _, shared⟩ := Wired.exists_shared ok
  simp [isShared, shared.isSome_type found composite, composite, often]

/-- Where no part of a value is held more than once, each sample and operation is rendered once at
most. -/
theorem Renders.count_le_one {function : Function} {rendered : List ExprId}
    (renders : Renders settings wired compiled function rendered) (coherent : wired.Coherent)
    {policy : ErrorPolicy} (ok : wired.compileRoot policy compiled.root = .ok compiled)
    (low : settings.shareThreshold.toNat ≤ 1) (unforked : Unforked compiled) {id : ExprId}
    {expr : Expr} (found : compiled.exprs[id]? = some expr)
    (composite : expr.isComposite = true) : rendered.count id ≤ 1 := by
  obtain ⟨_, _, shared⟩ := Wired.exists_shared ok
  have ordered := (Wired.exists_build ok).1
  have ruled := Wired.wellTyped_of_compileRoot coherent ok
  have typed : ∀ id ∈ returnedResults wired compiled, ∃ type, compiled.exprs.HasType id type := by
    intro id member
    have occurs := List.count_pos_iff.2 member
    have among := Nat.lt_of_lt_of_le occurs (count_returnedResults_le wired compiled id)
    obtain ⟨result, listed, rfl⟩ := List.mem_map.1 (List.count_pos_iff.1 among)
    exact Wired.exists_type_of_result coherent ok listed
  refine renders.tally.count_le_one ordered ruled typed shared.distinctResults ?_ found
    (.inl composite)
  intro other otherExpr foundOther worked
  have held := count_returnedResults_le wired compiled other
  have once : compiled.holders other ≤ 1 →
      compiled.exprs.operands.count other + (returnedResults wired compiled).count other ≤ 1 := by
    intro few
    unfold CompiledRoot.holders at few
    omega
  rcases worked with composite | part
  · by_cases few : compiled.holders other ≤ 1
    · exact .inr (once few)
    · left
      apply isShared_of_uses ok foundOther composite
      rw [Wired.uses_eq_holders ok foundOther (unforked.counted other)]
      omega
  · exact .inr (once (unforked.parts other otherExpr foundOther part))

theorem emitFunctionsNoting_run {configuration : Settings} {graph : Material}
    {compiled : CompiledGraph} (ok : configuration.compile graph = .ok compiled)
    (settings : TargetSettings) :
    ∃ written module,
      emitFunctionsNoting settings compiled = .ok (written, module) ∧
      emitFunctions settings compiled = .ok (written.map Prod.fst, module) ∧
      List.Forall₂ (fun (root : CompiledRoot) (entry : Function × List ExprId) =>
        Renders settings compiled.wired root entry.1 entry.2) compiled.compiledRoots written := by
  obtain ⟨functions, module, emitted, _⟩ := emitFunctions_run ok settings
  obtain ⟨table, serves⟩ := CompiledGraph.exists_table ok
  have ordered : ∀ root ∈ compiled.compiledRoots, root.exprs.OrderedFrom 0 := fun root member =>
    (Wired.exists_build (CompiledGraph.compileRoot_of_mem ok member)).1
  have idle : Idle table Module.empty := ⟨.nil table, rfl⟩
  have forgotten := emitFunctionsNoting_forget settings compiled
  rw [emitted] at forgotten
  cases noted : emitFunctionsNoting settings compiled with
  | error conflict =>
      rw [noted] at forgotten
      cases forgotten
  | ok both =>
      obtain ⟨written, last⟩ := both
      rw [noted] at forgotten
      obtain ⟨rfl, rfl⟩ := Prod.mk.inj (Except.ok.inj forgotten)
      refine ⟨written, last, rfl, emitted, ?_⟩
      unfold emitFunctionsNoting at noted
      split at noted
      · cases noted
      · rename_i ran
        cases noted
        exact mapM_rootFunction_rendered serves ordered idle ran

/-- A module can be written with a note of what each function renders. A sample or an operation that
is used directly more often than the threshold is rendered once at most in the function of its root,
and any other expression as often as it is asked for. With a threshold of one at most, all samples
and operations of a root are rendered once at most if each part of a value is held once. -/
theorem emitFunctions_renders {configuration : Settings} {graph : Material}
    {compiled : CompiledGraph} (ok : configuration.compile graph = .ok compiled)
    (settings : TargetSettings) :
    ∃ written module,
      emitFunctionsNoting settings compiled = .ok (written, module) ∧
      emitFunctions settings compiled = .ok (written.map Prod.fst, module) ∧
      List.Forall₂ (fun (root : CompiledRoot) (entry : Function × List ExprId) =>
        Renders settings compiled.wired root entry.1 entry.2 ∧
          (∀ id expr, root.exprs[id]? = some expr → expr.isComposite = true →
            settings.shareThreshold.toNat < expr.uses → entry.2.count id ≤ 1) ∧
          (graph.Built → settings.shareThreshold.toNat ≤ 1 → Unforked root →
            ∀ id expr, root.exprs[id]? = some expr → expr.isComposite = true →
              entry.2.count id ≤ 1))
        compiled.compiledRoots written := by
  obtain ⟨written, module, noted, emitted, rendered⟩ := emitFunctionsNoting_run ok settings
  refine ⟨written, module, noted, emitted, ?_⟩
  apply ((List.forall₂_and_left _ _).2 ⟨fun _ member => member, rendered⟩).imp
  rintro root entry ⟨member, renders⟩
  have alone := CompiledGraph.compileRoot_of_mem ok member
  refine ⟨renders, ?_, ?_⟩
  · intro id expr found composite often
    have counted := renders.tally.counted id expr found
    rw [if_pos (isShared_of_uses alone found composite often)] at counted
    simp only [List.not_mem_nil, if_false] at counted
    omega
  · intro built low unforked id expr found composite
    obtain ⟨wired, wire, same⟩ := CompiledGraph.compile_eq_ok ok
    have wiredIs : compiled.wired = wired := by rw [same]
    have coherent : compiled.wired.Coherent := wiredIs ▸ Wired.coherent_of_wire built wire
    exact renders.count_le_one coherent alone low unforked found composite

end Shader

namespace Sample

theorem squared_parts :
    (squaredCompiled.compiledRoots.map fun root =>
      (root.exprs.map Expr.isPart, (ExprList.operands root.exprs).length, root.results.length)) =
      [([false, false, false], 3, 1)] := by
  decide +kernel

theorem squared_rendered :
    ((Shader.emitFunctionsNoting .standard squaredCompiled).toOption.map fun (written, _) =>
      written.map Prod.snd) = some [[0, 1, 2]] := by
  decide +kernel

def metallic : Material :=
  ((Graph.empty "Metal").insert (.ofKind 0 (.textureRef "orm" none)))
    |>.insert (.ofKind 1 (.constant (.vec2 .zero .one) none))
    |>.insert (.ofKind 2 .textureSample)
    |>.insert (.ofKind 3 (.output .surface))
    |>.connect ⟨0, 0, 2, 0⟩
    |>.connect ⟨1, 0, 2, 1⟩
    |>.connect ⟨2, 2, 3, 1⟩
    |>.connect ⟨2, 2, 3, 2⟩
    |>.markRoot 3

def metallicWired : WiredMaterial :=
  match metallic.wire .strict with
  | .ok wired => wired
  | .error _ => .bare metallic

def metallicCompiled : CompiledGraph :=
  ⟨metallicWired, metallicWired.fingerprint [3], metallicWired.compileRoots .collectAll [] [3]⟩

theorem metallic_compile :
    Settings.compile ⟨1, .collectAll, .strict, .standard⟩ metallic = .ok metallicCompiled := rfl

theorem metallic_composites :
    (metallicCompiled.compiledRoots.map fun root => root.exprs.map Expr.isComposite) =
      [[false, false, true, false]] := by
  decide +kernel

/-- The lane is used twice and has no local, so the sample is rendered for each use of it. -/
theorem metallic_rendered :
    ((Shader.emitFunctionsNoting .standard metallicCompiled).toOption.map fun (written, _) =>
      written.map Prod.snd) = some [[0, 1, 2, 3, 0, 1, 2, 3]] := by
  decide +kernel

end Sample

namespace Shader

theorem emitFunctions_renders_squared :
    Sample.squared.Built ∧ (∀ root ∈ Sample.squaredCompiled.compiledRoots, Unforked root) ∧
      ∃ written module,
        emitFunctionsNoting .standard Sample.squaredCompiled = .ok (written, module) ∧
        written.map Prod.snd = [[0, 1, 2]] ∧
        List.Forall₂ (fun (root : CompiledRoot) (entry : Function × List ExprId) =>
          ∀ id expr, root.exprs[id]? = some expr → expr.isComposite = true →
            entry.2.count id ≤ 1) Sample.squaredCompiled.compiledRoots written := by
  have ok : Settings.compile ⟨1, .collectAll, .strict, .standard⟩ Sample.squared =
      .ok Sample.squaredCompiled := Sample.squared_compile rfl rfl
  have unforked : ∀ root ∈ Sample.squaredCompiled.compiledRoots, Unforked root := by
    intro root listed
    have among := List.mem_map_of_mem listed (f := fun root : CompiledRoot =>
      (root.exprs.map Expr.isPart, (ExprList.operands root.exprs).length, root.results.length))
    rw [Sample.squared_parts, List.mem_singleton, Prod.mk.injEq, Prod.mk.injEq] at among
    obtain ⟨parts, operands, results⟩ := among
    constructor
    · intro id expr found part
      have member := List.mem_map_of_mem (List.mem_of_getElem? found) (f := Expr.isPart)
      simp [parts, part] at member
    · intro id
      have inOperands := List.count_le_length (a := id) (l := ExprList.operands root.exprs)
      have inResults := List.count_le_length (a := id)
        (l := root.results.map Lowering.Result.expr)
      rw [List.length_map] at inResults
      unfold CompiledRoot.holders
      omega
  obtain ⟨written, module, noted, _, renders⟩ := emitFunctions_renders ok .standard
  refine ⟨Sample.squared_built, unforked, written, module, noted, ?_, ?_⟩
  · have rendered := Sample.squared_rendered
    rw [noted] at rendered
    exact Option.some.inj rendered
  · apply ((List.forall₂_and_left _ _).2 ⟨unforked, renders⟩).imp
    rintro root entry ⟨unforked, _, _, once⟩
    exact once Sample.squared_built (by decide) unforked

/-- A sample that one part of it is taken from is rendered again with each use of that part. -/
theorem sample_rendered_twice :
    Settings.compile ⟨1, .collectAll, .strict, .standard⟩ Sample.metallic =
        .ok Sample.metallicCompiled ∧
      TargetSettings.standard.shareThreshold = 1 ∧
      ¬∀ written module,
        emitFunctionsNoting .standard Sample.metallicCompiled = .ok (written, module) →
        List.Forall₂ (fun (root : CompiledRoot) (entry : Function × List ExprId) =>
          ∀ id expr, root.exprs[id]? = some expr → expr.isComposite = true →
            entry.2.count id ≤ 1) Sample.metallicCompiled.compiledRoots written := by
  refine ⟨Sample.metallic_compile, rfl, fun claimed => ?_⟩
  have evaluated := Sample.metallic_rendered
  cases noted : emitFunctionsNoting .standard Sample.metallicCompiled with
  | error conflict =>
      rw [noted] at evaluated
      cases evaluated
  | ok both =>
      obtain ⟨written, module⟩ := both
      rw [noted] at evaluated
      have rendered : written.map Prod.snd = [[0, 1, 2, 3, 0, 1, 2, 3]] := Option.some.inj evaluated
      have composites := Sample.metallic_composites
      have each := claimed written module noted
      generalize Sample.metallicCompiled.compiledRoots = roots at composites each
      cases each with
      | nil => cases composites
      | @cons root entry roots others once _ =>
          have kinds : root.exprs.map Expr.isComposite = [false, false, true, false] :=
            (List.cons.inj composites).1
          have log : entry.2 = [0, 1, 2, 3, 0, 1, 2, 3] := (List.cons.inj rendered).1
          have isComposite : (root.exprs.map Expr.isComposite)[2]? = some true := by rw [kinds]; rfl
          rw [List.getElem?_map, Option.map_eq_some_iff] at isComposite
          obtain ⟨expr, found, composite⟩ := isComposite
          have twice := once 2 expr found composite
          rw [log] at twice
          revert twice
          decide

end Shader

end MaterialGraph
