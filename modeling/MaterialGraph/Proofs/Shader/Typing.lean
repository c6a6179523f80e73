import MaterialGraph.Proofs.Compile.WellTyped
import MaterialGraph.Proofs.Shader.Functions
import MaterialGraph.Proofs.Wgsl.WellTyped

/-!
The functions of output blocks are well typed. Each local has the type it is bound at, in the scope
of the locals before it, and each port is assigned a value of the type it is stored at.
-/

set_option autoImplicit false

namespace MaterialGraph

namespace Block

variable {block : Block} {port : BlockPort}

theorem numeric_storage (listed : port ∈ block.ports) :
    TypeSet.numeric.contains port.storage = true := by
  revert port
  cases block <;> decide

theorem rejects_texture (listed : port ∈ block.ports) :
    port.accepts.contains .texture = false := by
  revert port
  cases block <;> decide

theorem finite_fallback (listed : port ∈ block.ports) :
    (block.fallback port.name).isFinite = true := by
  revert port
  cases block <;> decide

end Block

namespace Lowering

theorem Reported.numeric_of_block {exprs : ExprList} {body : Body} {root : NodeId}
    {node : MaterialNode} {results : List Result} (reported : Reported exprs body root node results)
    (typed : TypedBody exprs body) (valid : Typing.Valid body.wired root)
    (found : body.wired.node? root = some node) {block : Block} (kind : node.kind = .output block)
    {result : Result} (member : result ∈ results) :
    ∃ type, exprs.HasType result.expr type ∧ TypeSet.numeric.contains type = true := by
  unfold Reported at reported
  rw [kind] at reported
  obtain ⟨slot, listed, _, represents⟩ := exists_related_of_mem reported.flip member
  have input := (List.mem_filter.1 listed).1
  have atInput := (represents.typed typed valid).2
  obtain ⟨type, derived, hasType⟩ := atInput.of_member typed.coherent found input
  obtain ⟨layout, layoutListed, fits⟩ := (typed.coherent.laid found).exists_layout input
  have allowed := derived.allowed
  rw [fits.allowed] at allowed
  rw [kind] at layoutListed
  obtain ⟨⟨port, position⟩, portListed, rfl⟩ := List.mem_map.1 layoutListed
  have rejects := Block.rejects_texture (List.fst_mem_of_mem_zipIdx portListed)
  refine ⟨type, hasType, Wgsl.numeric_of_ne_texture ?_⟩
  rintro rfl
  cases rejects.symm.trans allowed

end Lowering

namespace Wired

open Lowering Wgsl

variable {wired : WiredMaterial} {policy : ErrorPolicy} {root : NodeId} {compiled : CompiledRoot}

theorem wellTyped_of_compileRoot (coherent : wired.Coherent)
    (ok : wired.compileRoot policy root = .ok compiled) (id : ExprId) (expr : Expr)
    (found : compiled.exprs[id]? = some expr) :
    compiled.exprs.WellTyped expr.kind expr.type := by
  obtain ⟨checked, _, _, placed, _⟩ := compiled_sound coherent ok
  have start : ExprList.Extends [] compiled.exprs := List.nil_prefix
  have typed := (ready_top checked).typed.extend start
  exact wellTyped_of_mem (fun id below => (placed id below).wellTypedAt typed)
    (List.mem_of_getElem? found)

theorem writable_of_compileRoot (coherent : wired.Coherent) (finite : wired.graph.Finite)
    (ok : wired.compileRoot policy root = .ok compiled) : Writable compiled.exprs := by
  obtain ⟨checked, _, ordered, placed, _⟩ := compiled_sound coherent ok
  have start : ExprList.Extends [] compiled.exprs := List.nil_prefix
  have typed := (ready_top checked).typed.extend start
  have finiteTop : FiniteBody compiled.exprs (.top wired compiled.types) := by
    refine ⟨finite, ?_⟩
    intro id expr given
    cases given
  refine ⟨ordered, wellTyped_of_compileRoot coherent ok, ?_⟩
  intro id expr found
  have below := (List.getElem?_eq_some_iff.1 found).1
  exact ((placed id below).expressible typed finiteTop).expressible found

theorem numeric_result (coherent : wired.Coherent)
    (ok : wired.compileRoot policy root = .ok compiled) {node : MaterialNode}
    (found : wired.node? root = some node) {block : Block} (kind : node.kind = .output block)
    {name : String} {id : ExprId} (result : compiled.result? name = some id) :
    ∃ type, compiled.exprs.HasType id type ∧ TypeSet.numeric.contains type = true := by
  obtain ⟨checked, scheduled, _, _, _, foundToo, reported⟩ := compiled_sound coherent ok
  cases found.symm.trans foundToo
  have start : ExprList.Extends [] compiled.exprs := List.nil_prefix
  have typed := (ready_top checked).typed.extend start
  obtain ⟨entry, listed, rfl⟩ := Option.map_eq_some_iff.1 result
  exact reported.numeric_of_block typed (checked.valid root scheduled) found kind
    (List.mem_of_find?_eq_some listed)

end Wired

namespace Sample

theorem squared_built : squared.Built := by
  apply Graph.Built.markRoot
  iterate 4 apply Graph.Built.connect
  refine Graph.Built.insert (Graph.Built.insert (Graph.Built.insert (Graph.Built.insert
    (Graph.Built.empty _) (.new _ _) ?_) (.new _ _) ?_) (.new _ _) ?_) (.new _ _) ?_ <;>
    intro inner isCall <;> cases isCall

theorem squared_nodes : squared.nodes = [.ofKind 0 (.constant (.scalar .one) (some "gain")),
    .ofKind 1 (.math .sin), .ofKind 2 (.math .multiply), .ofKind 3 (.output .unlit)] := rfl

theorem squared_finite : squared.Finite := by
  constructor
  · rw [squared_nodes]
    decide
  · intro node member callee kind
    rw [squared_nodes] at member
    simp only [List.mem_cons, List.not_mem_nil, or_false] at member
    rcases member with rfl | rfl | rfl | rfl <;> cases kind

end Sample

namespace Shader

open Wgsl

/-- The function of an output block, in a module with the uniforms in one variable: each local has
its type by the locals before it, and each port has a value of the type it is stored at. -/
structure Function.WellTyped (holder : String) (module : Module) (block : Block)
    (function : Function) : Prop where
  distinct : (function.locals.map Statement.name).Nodup
  locals : ∀ before statement after, function.locals = before ++ statement :: after →
    HasType holder ⟨module.uniforms, module.textures, before⟩ statement.value statement.type
  returned : ∃ fields, function.returned = .record block fields ∧
    fields.map Prod.fst = block.ports ∧ ∀ field ∈ fields,
      HasType holder ⟨module.uniforms, module.textures, function.locals⟩ field.2 field.1.storage

theorem hasType_widen {holder : String} {scope : Scope} {code : Code} {source target : ValueType}
    (typed : HasType holder scope code source)
    (numeric : TypeSet.numeric.contains source = true)
    (wanted : TypeSet.numeric.contains target = true) :
    HasType holder scope (widen code source target) target := by
  unfold widen
  split
  · rename_i grey
    obtain ⟨rfl, rfl⟩ := grey
    apply HasType.swizzle typed rfl _ rfl
    intro lane member
    have first : lane = .x := by simpa using member
    rw [first]
    decide
  · exact typed.convert numeric wanted

variable {settings : TargetSettings} {wired : WiredMaterial} {compiled : CompiledRoot}
  {module : Module} {function : Function}

theorem hasType_portCode {scope : Scope} {block : Block} {port : BlockPort}
    (listed : port ∈ block.ports)
    (result : ∀ id, compiled.result? port.name = some id →
      ∃ type, compiled.exprs.HasType id type ∧ TypeSet.numeric.contains type = true ∧
        Denotes settings.uniformBinding scope (codeOf settings compiled.exprs id) type) :
    HasType settings.uniformBinding scope (portCode settings compiled block port) port.storage := by
  have wanted := Block.numeric_storage listed
  unfold portCode
  cases source : compiled.result? port.name with
  | some id =>
      obtain ⟨type, hasType, numeric, denotes⟩ := result id source
      simp only [storedCode, operandType_eq hasType]
      exact hasType_widen (denotes.hasType numeric) numeric wanted
  | none =>
      have numeric : TypeSet.numeric.contains (block.fallback port.name).type = true :=
        numeric_of_lanes (Literal.lanes_length _)
      exact hasType_widen (.literal (Block.finite_fallback listed)) numeric wanted

theorem exists_node_of_block? {root : NodeId} {block : Block}
    (isBlock : block? wired root = some block) :
    ∃ node, wired.node? root = some node ∧ node.kind = .output block := by
  unfold block? at isBlock
  split at isBlock
  · rename_i found
    cases isBlock
    exact ⟨_, found, rfl⟩
  · cases isBlock

theorem Writes.wellTyped
    (writes : Writes settings wired module.uniforms module.textures compiled function)
    (writable : Writable compiled.exprs) {block : Block}
    (isBlock : block? wired compiled.root = some block)
    (numeric : ∀ name id, compiled.result? name = some id →
      ∃ type, compiled.exprs.HasType id type ∧ TypeSet.numeric.contains type = true) :
    function.WellTyped settings.uniformBinding module block := by
  obtain ⟨ids, lets⟩ := writes.lets
  refine ⟨lets.nodup, ?_, ?_⟩
  · intro before statement after split
    exact lets.hasType writable split
  · refine ⟨block.ports.map fun port => (port, portCode settings compiled block port), ?_, ?_, ?_⟩
    · rw [writes.returned]
      simp only [returnedCode, isBlock]
    · rw [List.map_map]
      exact List.map_id _
    · intro field member
      obtain ⟨port, listed, rfl⟩ := List.mem_map.1 member
      apply hasType_portCode listed
      intro id found
      obtain ⟨type, hasType, isNumber⟩ := numeric port.name id found
      have ready := writes.ready id (mem_returnedResults isBlock listed found)
      exact ⟨type, hasType, isNumber, ready.denotes writable lets.scopeTyped type hasType⟩

/-- For a graph of nodes as authors make them, with finite literals, every compiled output block
gets a function that is well typed. -/
theorem blockFunctions_wellTyped {graph : Material} (built : graph.Built) (finite : graph.Finite)
    {configuration : Settings} {compiled : CompiledGraph}
    (ok : configuration.compile graph = .ok compiled) (settings : TargetSettings) :
    ∃ functions module, emitFunctions settings compiled = .ok (functions, module) ∧
      List.Forall₂ (fun (root : CompiledRoot) (function : Function) =>
        ∀ block, block? compiled.wired root.root = some block →
          function.name = functionName (functionStem block) root.root ∧
            function.WellTyped settings.uniformBinding module block)
        compiled.compiledRoots functions := by
  obtain ⟨functions, module, emitted, written⟩ := emitFunctions_run ok settings
  refine ⟨functions, module, emitted, ?_⟩
  obtain ⟨wired, wire, same⟩ := CompiledGraph.compile_eq_ok ok
  have wiredIs : compiled.wired = wired := by rw [same]
  have coherent : compiled.wired.Coherent := wiredIs ▸ Wired.coherent_of_wire built wire
  have finiteWired : compiled.wired.graph.Finite := wiredIs ▸ finite.wire wire
  apply ((List.forall₂_and_left _ _).2 ⟨fun _ member => member, written⟩).imp
  intro root function both block isBlock
  obtain ⟨member, writes⟩ := both
  have alone := CompiledGraph.compileRoot_of_mem ok member
  obtain ⟨node, found, kind⟩ := exists_node_of_block? isBlock
  constructor
  · rw [writes.name]
    simp only [rootName, isBlock]
  · apply writes.wellTyped (Wired.writable_of_compileRoot coherent finiteWired alone) isBlock
    intro name id result
    exact Wired.numeric_result coherent alone found kind result

theorem squared_blocks :
    (Sample.squaredCompiled.compiledRoots.map fun root =>
      block? Sample.squaredCompiled.wired root.root) = [some .unlit] := by
  decide +kernel

theorem blockFunctions_wellTyped_squared :
    Sample.squared.Built ∧ Sample.squared.Finite ∧ ∃ functions module,
      emitFunctions .standard Sample.squaredCompiled = .ok (functions, module) ∧
      functions.length = 1 ∧
      ∀ function ∈ functions, function.WellTyped "material" module .unlit := by
  refine ⟨Sample.squared_built, Sample.squared_finite, ?_⟩
  have ok : Settings.compile ⟨1, .collectAll, .strict, .standard⟩ Sample.squared =
      .ok Sample.squaredCompiled := Sample.squared_compile rfl rfl
  obtain ⟨functions, module, emitted, typed⟩ :=
    blockFunctions_wellTyped Sample.squared_built Sample.squared_finite ok .standard
  have blocks := squared_blocks
  refine ⟨functions, module, emitted, ?_, ?_⟩
  · rw [← typed.length_eq]
    simpa using congrArg List.length blocks
  · intro function member
    obtain ⟨root, listed, wellTyped⟩ := exists_related_of_mem typed.flip member
    have isBlock : block? Sample.squaredCompiled.wired root.root = some .unlit := by
      have among := List.mem_map_of_mem listed
        (f := fun root => block? Sample.squaredCompiled.wired root.root)
      rw [blocks] at among
      exact List.mem_singleton.1 among
    exact (wellTyped .unlit isBlock).2

end Shader

end MaterialGraph
