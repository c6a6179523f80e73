import MaterialGraph.Proofs.Shader.Typing

/-!
The functions of previews. Any node but an output block is shown by its first output. A number of
any width becomes a colour, and so does a node without outputs; a texture has no lanes to select,
and what is returned for it is its name with a selection of nothing, which is not an expression.
-/

set_option autoImplicit false

namespace MaterialGraph

namespace Lowering

theorem Reported.recorded {exprs : ExprList} {body : Body} {order : List NodeId} {root : NodeId}
    {node : MaterialNode} {results : List Result}
    (reported : Reported exprs body root node results) (typed : TypedBody exprs body)
    (checked : body.wired.Checked order body.types) (member : root ∈ order)
    (found : body.wired.node? root = some node) (shown : ∀ block, node.kind ≠ .output block) :
    List.Forall₂ (fun (slot : OutputSlot) (result : Result) =>
      ∃ type, body.types.find? (root, slot.id) = some type ∧ exprs.HasType result.expr type)
      node.outputs results := by
  have outputs : List.Forall₂ (fun (slot : OutputSlot) (result : Result) =>
      result.name = slot.name ∧ Represents exprs body (.output root slot.id) result.expr)
      node.outputs results := by
    unfold Reported at reported
    split at reported
    · rename_i block kind
      exact absurd kind (shown block)
    · exact reported
  apply ((List.forall₂_and_left _ _).2 ⟨fun _ listed => listed, outputs⟩).imp
  rintro slot result ⟨listed, _, represents⟩
  obtain ⟨type, derived, hasType⟩ := (represents.typed typed (checked.valid root member)).2
  obtain ⟨other, recorded, derivedToo⟩ := checked.exists_recorded member found listed
  have same : type = other := derived.agree checked.coherent.outputsDistinct derivedToo rfl rfl
  exact ⟨type, same ▸ recorded, hasType⟩

end Lowering

namespace Shader

open Wgsl

def shownType? (wired : WiredMaterial) (compiled : CompiledRoot) : Option ValueType :=
  ((wired.node? compiled.root).bind fun node => node.outputs.head?).bind fun slot =>
    compiled.types.find? (compiled.root, slot.id)

/-- The value of a preview in a scope: a colour, unless a texture is shown. Then it is the name of
the texture with a selection of no lanes, and has no type. -/
def Shows (holder : String) (scope : Scope) (shown : Option ValueType) (value : Code) : Prop :=
  if shown = some .texture then
    (∃ name ∈ scope.textures, value = .select (.texture name) [] ∧ value.text = name ++ ".") ∧
      ∀ type, ¬HasType holder scope value type
  else HasType holder scope value .vec4

/-- The function of a preview, in a module with the uniforms in one variable: each local has its
type by the locals before it, and the value shows what has the given type. -/
structure Function.Previews (holder : String) (module : Module) (shown : Option ValueType)
    (function : Function) : Prop where
  distinct : (function.locals.map Statement.name).Nodup
  locals : ∀ before statement after, function.locals = before ++ statement :: after →
    HasType holder ⟨module.uniforms, module.textures, before⟩ statement.value statement.type
  returned : ∃ value, function.returned = .colour value ∧
    Shows holder ⟨module.uniforms, module.textures, function.locals⟩ shown value

variable {holder : String} {scope : Scope}

theorem text_texture (name : String) : (Code.texture name).text = name := rfl

theorem text_select (source : Code) (lanes : List Lane) :
    (Code.select source lanes).text =
      source.text ++ "." ++ String.ofList (lanes.map Lane.letter) := rfl

/-- A texture is converted to a selection of none of its lanes. -/
theorem widen_texture (code : Code) : widen code .texture .vec4 = .select code [] := by
  simp [widen, Code.convert, Component.cast, ValueType.lanes?, Code.swizzle]

theorem not_hasType_select_texture (name : String) (lanes : List Lane) (type : ValueType) :
    ¬HasType holder scope (.select (.texture name) lanes) type := by
  intro typed
  cases typed with
  | select source => cases source

theorem shows_texture {shown : Option ValueType} {name : String} (listed : name ∈ scope.textures)
    (texture : shown = some .texture) :
    Shows holder scope shown (widen (.texture name) .texture .vec4) := by
  have text : (Code.select (.texture name) []).text = name ++ "." := by
    rw [text_select, text_texture, List.map_nil, String.ofList_nil, String.append_empty]
  rw [widen_texture, Shows, if_pos texture]
  exact ⟨⟨name, listed, rfl, text⟩, not_hasType_select_texture name []⟩

variable {settings : TargetSettings} {wired : WiredMaterial} {compiled : CompiledRoot}
  {module : Module} {function : Function}

theorem shows_storedCode {fallback : Literal} {id : ExprId} {type : ValueType}
    (hasType : compiled.exprs.HasType id type)
    (denotes : Denotes settings.uniformBinding scope (codeOf settings compiled.exprs id) type) :
    Shows settings.uniformBinding scope (some type)
      (storedCode settings compiled.exprs .vec4 fallback (some id)) := by
  simp only [storedCode, operandType_eq hasType]
  by_cases texture : type = .texture
  · subst texture
    obtain ⟨name, listed, isTexture⟩ := denotes.exists_texture
    rw [isTexture]
    exact shows_texture listed rfl
  · have numeric := numeric_of_ne_texture texture
    unfold Shows
    rw [if_neg fun same => texture (Option.some.inj same)]
    exact hasType_widen (denotes.hasType numeric) numeric rfl

theorem shows_black (exprs : ExprList) :
    Shows settings.uniformBinding scope none
      (storedCode settings exprs .vec4 (.vec4 .zero .zero .zero .one) none) := by
  have black : HasType settings.uniformBinding scope
      (.literal (.vec4 .zero .zero .zero .one)) .vec4 := by
    apply HasType.literal
    decide
  exact hasType_widen black rfl rfl

theorem block?_of_output {root : NodeId} {node : MaterialNode}
    (found : wired.node? root = some node) {block : Block} (kind : node.kind = .output block) :
    block? wired root = some block := by
  obtain ⟨id, name, kindOf, inputs, outputs⟩ := node
  cases kind
  simp only [block?, found]

theorem compile_coherent {graph : Material} (built : graph.Built) (finite : graph.Finite)
    {configuration : Settings} {compiled : CompiledGraph}
    (ok : configuration.compile graph = .ok compiled) :
    compiled.wired.Coherent ∧ compiled.wired.graph.Finite := by
  obtain ⟨wired, wire, rfl⟩ := CompiledGraph.compile_eq_ok ok
  exact ⟨Wired.coherent_of_wire built wire, finite.wire wire⟩

theorem Writes.previews
    (writes : Writes settings wired module.uniforms module.textures compiled function)
    (writable : Writable compiled.exprs) (isPreview : block? wired compiled.root = none)
    (shown : ∀ id, previewed compiled = some id → ∃ type,
      shownType? wired compiled = some type ∧ compiled.exprs.HasType id type)
    (nothing : previewed compiled = none → shownType? wired compiled = none) :
    function.Previews settings.uniformBinding module (shownType? wired compiled) := by
  obtain ⟨ids, lets⟩ := writes.lets
  refine ⟨lets.nodup, ?_, previewCode settings compiled, ?_, ?_⟩
  · intro before statement after split
    exact lets.hasType writable split
  · rw [writes.returned]
    simp only [returnedCode, isPreview]
  · unfold previewCode
    cases source : previewed compiled with
    | none =>
        rw [nothing source]
        exact shows_black compiled.exprs
    | some id =>
        obtain ⟨type, isShown, hasType⟩ := shown id source
        have ready := writes.ready id (mem_returnedResults_of_preview isPreview source)
        rw [isShown]
        exact shows_storedCode hasType (ready.denotes writable lets.scopeTyped type hasType)

end Shader

namespace Wired

open Lowering

theorem shown_of_compileRoot {wired : WiredMaterial} (coherent : wired.Coherent)
    {policy : ErrorPolicy} {compiled : CompiledRoot}
    (ok : wired.compileRoot policy compiled.root = .ok compiled)
    (isPreview : Shader.block? wired compiled.root = none) :
    (∀ id, Shader.previewed compiled = some id → ∃ type,
      Shader.shownType? wired compiled = some type ∧ compiled.exprs.HasType id type) ∧
    (Shader.previewed compiled = none → Shader.shownType? wired compiled = none) := by
  obtain ⟨checked, member, _, _, node, found, reported⟩ := compiled_sound coherent ok
  have start : ExprList.Extends [] compiled.exprs := List.nil_prefix
  have typed := (ready_top checked).typed.extend start
  have shown : ∀ block, node.kind ≠ .output block := by
    intro block kind
    rw [Shader.block?_of_output found kind] at isPreview
    cases isPreview
  have recorded := reported.recorded typed checked member found shown
  unfold Shader.previewed Shader.shownType?
  rw [found, Option.bind_some]
  generalize node.outputs = outputs at recorded ⊢
  generalize compiled.results = results at recorded ⊢
  cases recorded with
  | nil => simp
  | cons first rest =>
      obtain ⟨type, isRecorded, hasType⟩ := first
      simpa using ⟨type, isRecorded, hasType⟩

end Wired

namespace Shader

open Wgsl

/-- For a graph of nodes as authors make them, with finite literals, every compiled root that is
no output block gets a preview, which returns a colour unless what it shows is a texture. -/
theorem previewFunctions_wellTyped {graph : Material} (built : graph.Built) (finite : graph.Finite)
    {configuration : Settings} {compiled : CompiledGraph}
    (ok : configuration.compile graph = .ok compiled) (settings : TargetSettings) :
    ∃ functions module, emitFunctions settings compiled = .ok (functions, module) ∧
      List.Forall₂ (fun (root : CompiledRoot) (function : Function) =>
        block? compiled.wired root.root = none →
          function.name = functionName "preview" root.root ∧
            function.Previews settings.uniformBinding module (shownType? compiled.wired root))
        compiled.compiledRoots functions := by
  obtain ⟨functions, module, emitted, written⟩ := emitFunctions_run ok settings
  refine ⟨functions, module, emitted, ?_⟩
  obtain ⟨coherent, finiteWired⟩ := compile_coherent built finite ok
  apply ((List.forall₂_and_left _ _).2 ⟨fun _ member => member, written⟩).imp
  rintro root function ⟨member, writes⟩ isPreview
  have alone := CompiledGraph.compileRoot_of_mem ok member
  obtain ⟨shown, nothing⟩ := Wired.shown_of_compileRoot coherent alone isPreview
  constructor
  · rw [writes.name]
    simp only [rootName, isPreview]
  · exact writes.previews (Wired.writable_of_compileRoot coherent finiteWired alone) isPreview
      shown nothing

end Shader

namespace Sample

def shown : Material :=
  ((Graph.empty "Shown").insert (.ofKind 0 (.textureRef "albedo" none)))
    |>.insert (.ofKind 1 (.constant (.vec2 .zero .one) none))
    |>.insert (.ofKind 2 .textureSample)
    |>.connect ⟨0, 0, 2, 0⟩
    |>.connect ⟨1, 0, 2, 1⟩
    |>.markRoot 0
    |>.markRoot 2

def shownWired : WiredMaterial :=
  match shown.wire .strict with
  | .ok wired => wired
  | .error _ => .bare shown

def shownCompiled : CompiledGraph :=
  ⟨shownWired, shownWired.fingerprint [0, 2],
    shownWired.compileRoots .collectAll [] [0, 2]⟩

theorem shown_compile :
    Settings.compile ⟨1, .collectAll, .strict, .standard⟩ shown = .ok shownCompiled := rfl

theorem shown_built : shown.Built := by
  iterate 2 apply Graph.Built.markRoot
  iterate 2 apply Graph.Built.connect
  refine Graph.Built.insert (Graph.Built.insert (Graph.Built.insert
    (Graph.Built.empty _) (.new _ _) ?_) (.new _ _) ?_) (.new _ _) ?_ <;>
    intro inner isCall <;> cases isCall

theorem shown_nodes : shown.nodes = [.ofKind 0 (.textureRef "albedo" none),
    .ofKind 1 (.constant (.vec2 .zero .one) none), .ofKind 2 .textureSample] := rfl

theorem shown_finite : shown.Finite := by
  constructor
  · rw [shown_nodes]
    decide
  · intro node member callee kind
    rw [shown_nodes] at member
    simp only [List.mem_cons, List.not_mem_nil, or_false] at member
    rcases member with rfl | rfl | rfl <;> cases kind

theorem shown_previews :
    (shownCompiled.compiledRoots.map fun root =>
      Shader.block? shownCompiled.wired root.root) = [none, none] := by
  decide +kernel

theorem shown_types :
    shownCompiled.compiledRoots.map (Shader.shownType? shownCompiled.wired) =
      [some .texture, some .vec4] := by
  decide +kernel

/-- The texture of a returned selection that selects no component. -/
def unselected? : Shader.Returned → Option String
  | .colour (.select (.texture name) []) => some name
  | _ => none

theorem eq_of_unselected? {returned : Shader.Returned} {name : String}
    (unselected : unselected? returned = some name) :
    returned = .colour (.select (.texture name) []) := by
  unfold unselected? at unselected
  split at unselected
  · rw [Option.some.inj unselected]
  · cases unselected

theorem shown_returns :
    ((Shader.emitFunctions .standard shownCompiled).toOption.map fun (functions, _) =>
      functions.map fun function => unselected? function.returned) =
      some [some "albedo", none] := by
  decide +kernel

end Sample

namespace Shader

open Wgsl

theorem previewFunctions_wellTyped_shown :
    Sample.shown.Built ∧ Sample.shown.Finite ∧ ∃ functions module,
      emitFunctions .standard Sample.shownCompiled = .ok (functions, module) ∧
      List.Forall₂ (fun type (function : Function) => function.Previews "material" module type)
        [some .texture, some .vec4] functions := by
  obtain ⟨functions, module, emitted, typed⟩ := previewFunctions_wellTyped Sample.shown_built
    Sample.shown_finite Sample.shown_compile .standard
  refine ⟨Sample.shown_built, Sample.shown_finite, functions, module, emitted, ?_⟩
  have previews : ∀ root ∈ Sample.shownCompiled.compiledRoots,
      block? Sample.shownCompiled.wired root.root = none := by
    intro root listed
    have among := List.mem_map_of_mem listed
      (f := fun root => block? Sample.shownCompiled.wired root.root)
    rw [Sample.shown_previews] at among
    simpa using among
  rw [← Sample.shown_types, List.forall₂_map_left_iff]
  apply ((List.forall₂_and_left _ _).2 ⟨fun _ member => member, typed⟩).imp
  intro root function preview
  exact (preview.2 (previews root preview.1)).2

/-- What is returned for a texture is not an expression. -/
theorem preview_not_colour :
    Settings.compile ⟨1, .collectAll, .strict, .standard⟩ Sample.shown =
        .ok Sample.shownCompiled ∧
      ∃ functions module,
        emitFunctions .standard Sample.shownCompiled = .ok (functions, module) ∧
        ∃ function ∈ functions, ∃ value, function.returned = .colour value ∧
          value.text = "albedo." ∧
          ∀ holder scope type, ¬HasType holder scope value type := by
  obtain ⟨functions, module, emitted, _⟩ := emitFunctions_run Sample.shown_compile .standard
  have evaluated := Sample.shown_returns
  rw [emitted] at evaluated
  have returns : functions.map (fun function => Sample.unselected? function.returned) =
      [some "albedo", none] := Option.some.inj evaluated
  obtain ⟨function, member, unselected⟩ : ∃ function ∈ functions,
      Sample.unselected? function.returned = some "albedo" := by
    rw [← List.mem_map, returns]
    exact List.mem_cons_self
  have returned := Sample.eq_of_unselected? unselected
  refine ⟨Sample.shown_compile, functions, module, emitted, function, member, _, returned, ?_, ?_⟩
  · rw [text_select, text_texture]
    rfl
  · intro holder scope
    exact not_hasType_select_texture "albedo" []

end Shader

end MaterialGraph
