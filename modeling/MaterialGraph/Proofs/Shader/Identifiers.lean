import MaterialGraph.Proofs.Shader.Assembly
import MaterialGraph.Proofs.Shader.Declarations
import MaterialGraph.Proofs.Shader.Sharing

/-!
The identifiers of a shader module. Textures keep the names that their authors gave them, and share
one scope with the names that are made for the module: its samplers, its uniform block, its records
and its functions. The made names are told apart by how they end, so that two declarations can meet
only where a texture has the name of something else. In a function, too, only a texture can be
hidden by what the function declares.
-/

set_option autoImplicit false

namespace MaterialGraph

namespace Wgsl

inductive Reference where
  | uniforms (block : String)
  | texture (name : String)
  /-- The sampler of a texture. -/
  | sampler (sampled : String)
deriving DecidableEq

namespace Reference

def name : Reference → String
  | uniforms block => block
  | texture name => name
  | sampler sampled => samplerName sampled

/-- A reference to the uniform block of a module, to one of its textures, or to a sampler. -/
def Known (settings : TargetSettings) (textures : List String) : Reference → Prop
  | uniforms block => block = settings.uniformBinding
  | texture name => name ∈ textures
  | sampler _ => True

end Reference

namespace Code

mutual

@[simp] def references : Code → List Reference
  | verbatim _ => []
  | float _ => []
  | uniform block _ => [.uniforms block]
  | texture name => [.texture name]
  | shared _ => []
  | sample source coordinate none =>
      .sampler source.text :: (references source ++ references coordinate)
  | sample source coordinate (some level) =>
      .sampler source.text ::
        (references source ++ references coordinate ++ references level)
  | select source _ => references source
  | construct _ parts => referencesOfAll parts
  | arithmetic _ left right => references left ++ references right
  | apply _ arguments => referencesOfAll arguments
  | run parts => referencesOfAll parts

def referencesOfAll : List Code → List Reference
  | [] => []
  | code :: rest => references code ++ referencesOfAll rest

end

@[simp] theorem referencesOfAll_eq (parts : List Code) :
    referencesOfAll parts = parts.flatMap references := by
  induction parts with
  | nil => rfl
  | cons code rest induction => rw [referencesOfAll, induction, List.flatMap_cons]

/-- Code refers to what its parts refer to, and to samplers. -/
theorem compositional_references {allowed : Reference → Prop}
    (samplers : ∀ texture, allowed (.sampler texture)) :
    Compositional fun code => ∀ reference ∈ code.references, allowed reference where
  float := by simp
  sample := by
    intro source coordinate level first second third
    cases level with
    | none =>
        simp only [references, List.forall_mem_cons, List.forall_mem_append]
        exact ⟨samplers _, first, second⟩
    | some part =>
        simp only [references, List.forall_mem_cons, List.forall_mem_append]
        exact ⟨samplers _, ⟨first, second⟩, third part rfl⟩
  select := by simp
  construct := by
    simp only [references, referencesOfAll_eq, List.mem_flatMap]
    exact fun _ _ each reference ⟨part, listed, inside⟩ => each part listed reference inside
  arithmetic := by
    simp only [references, List.forall_mem_append]
    exact fun _ _ _ first second => ⟨first, second⟩
  apply := by
    simp only [references, referencesOfAll_eq, List.mem_flatMap]
    exact fun _ _ each reference ⟨part, listed, inside⟩ => each part listed reference inside
  run := by
    simp only [references, referencesOfAll_eq, List.mem_flatMap]
    exact fun each reference ⟨part, listed, inside⟩ => each part listed reference inside

end Code

theorem grants_references (settings : TargetSettings) (scope : Scope) :
    scope.Grants settings fun code =>
      ∀ reference ∈ code.references, reference.Known settings scope.textures where
  parts := Code.compositional_references fun _ => trivial
  uniform := by simp [Reference.Known]
  texture := by simp [Reference.Known]
  shared := by simp

section Names

variable {texture name : String}

theorem samplerName_injective : Function.Injective samplerName := by
  intro texture other same
  have letters := congrArg String.toList same
  simp only [samplerName, String.toList_append, List.append_cancel_right_eq] at letters
  exact String.toList_inj.1 letters

theorem samplerName_ne (plain : '_' ∉ name.toList) : samplerName texture ≠ name := by
  intro same
  apply plain
  simp [← same, samplerName]

theorem notMem_localName (id : ExprId) {char : Char} (other : char ≠ 'e')
    (letter : char.isDigit = false) : char ∉ (localName id).toList := by
  intro member
  simp only [localName, String.toList_append, List.mem_append] at member
  rcases member with here | digit
  · exact other (by simpa using here)
  · cases letter.symm.trans (isDigit_of_mem_toString digit)

end Names

def Resource.name (settings : TargetSettings) : Resource → String
  | uniforms => settings.uniformBinding
  | texture name => name
  | sampler name => samplerName name

end Wgsl

namespace Shader

open Wgsl

inductive Declaration where
  /-- The record of the uniforms. -/
  | uniforms (fields : Parameters)
  | resource (bound : Resource) (binding : Nat)
  /-- The record that the functions of a block return. -/
  | record (block : Block)
  | function (written : Function)

namespace Declaration

def name (settings : TargetSettings) : Declaration → String
  | uniforms _ => settings.uniformStruct
  | resource bound _ => bound.name settings
  | record block => structName block
  | function written => written.name

def keyword : Declaration → String
  | uniforms _ => "struct "
  | resource .uniforms _ => "var<uniform> "
  | resource _ _ => "var "
  | record _ => "struct "
  | function _ => "fn "

def text (settings : TargetSettings) : Declaration → String
  | uniforms fields => Module.uniformRecord settings fields
  | resource bound binding => Module.boundAt settings (bound, binding)
  | record block => "\n" ++ structText block
  | function written => "\n" ++ written.text

end Declaration

def declared (compiled : CompiledGraph) (functions : List Function) (module : Module) :
    List Declaration :=
  (if module.uniforms.isEmpty then [] else [.uniforms module.uniforms]) ++
    (Module.resources module.uniforms module.textures).zipIdx.map
      (fun entry => .resource entry.1 entry.2) ++
    (blocks compiled).map .record ++ functions.map .function

/-- The text of a module is that of its declarations, one after another. -/
theorem moduleText_eq (settings : TargetSettings) (compiled : CompiledGraph)
    (functions : List Function) (module : Module) :
    moduleText settings compiled functions module =
      "// blueprint " ++ compiled.digest.hex ++ "\n\n" ++
        String.join ((declared compiled functions module).map (Declaration.text settings)) := by
  have record : String.join ((if module.uniforms.isEmpty then []
      else [Declaration.uniforms module.uniforms]).map (Declaration.text settings)) =
        Module.uniformRecord settings module.uniforms := by
    cases module.uniforms <;> simp [Module.uniformRecord, Declaration.text]
  unfold moduleText declared
  rw [Module.declarations_eq]
  simp only [List.map_append, String.join_append, record, List.map_map, String.append_assoc]
  rfl

theorem exists_text_resource (settings : TargetSettings) (bound : Resource) (binding : Nat) :
    ∃ after, bound.text settings =
      (Declaration.resource bound binding).keyword ++ bound.name settings ++ after := by
  cases bound with
  | uniforms =>
      refine ⟨": " ++ settings.uniformStruct ++ ";", ?_⟩
      simp only [← String.append_assoc]
      rfl
  | texture name => exact ⟨": texture_2d<f32>;", rfl⟩
  | sampler name => exact ⟨": sampler;", rfl⟩

theorem isEmpty_of_mem_declared {compiled : CompiledGraph} {functions : List Function}
    {module : Module} {fields : Parameters}
    (member : .uniforms fields ∈ declared compiled functions module) : fields.isEmpty = false := by
  simp only [declared, List.mem_append, List.mem_map, reduceCtorEq, and_false, exists_false,
    or_false] at member
  split at member
  · cases member
  · rename_i present
    cases List.mem_singleton.1 member
    exact Bool.eq_false_iff.2 present

theorem Declaration.exists_text (settings : TargetSettings) {compiled : CompiledGraph}
    {functions : List Function} {module : Module} {declaration : Declaration}
    (member : declaration ∈ declared compiled functions module) :
    ∃ before after, declaration.text settings =
      before ++ declaration.keyword ++ declaration.name settings ++ after := by
  cases declaration with
  | uniforms fields =>
      have present := isEmpty_of_mem_declared member
      exact ⟨"", _, by
        simp only [text, Module.uniformRecord, present, Module.line, Bool.false_eq_true, if_false,
          keyword, Declaration.name, String.empty_append, String.append_assoc]
        rfl⟩
  | resource bound binding =>
      obtain ⟨after, same⟩ := exists_text_resource settings bound binding
      exact ⟨"@group(" ++ toString settings.bindGroup.toNat ++ ") @binding(" ++
        toString binding ++ ") ", after ++ "\n", by
          simp only [text, Module.boundAt, Module.line, same, Declaration.name,
            String.append_assoc]⟩
  | record block =>
      exact ⟨"\n", _, by
        simp only [text, structText, String.append_assoc]
        rfl⟩
  | function written =>
      exact ⟨"\n", _, by
        simp only [text, Function.text, String.append_assoc]
        rfl⟩

/-- The identifiers that are made for a module: of the uniform block, if there is one, of the
records and of the functions. Those of samplers are made of the names of textures. -/
def made (settings : TargetSettings) (compiled : CompiledGraph) (functions : List Function)
    (module : Module) : List String :=
  (if module.uniforms.isEmpty then [] else [settings.uniformStruct, settings.uniformBinding]) ++
    (blocks compiled).map structName ++ functions.map Function.name

theorem names_perm (settings : TargetSettings) (compiled : CompiledGraph)
    (functions : List Function) (module : Module) :
    ((declared compiled functions module).map (Declaration.name settings)).Perm
      (made settings compiled functions module ++
        (module.textures ++ module.textures.map samplerName)) := by
  have pairs : ((module.textures.flatMap Module.pair).map (Resource.name settings)).Perm
      (module.textures ++ module.textures.map samplerName) := by
    have split := List.map_append_flatMap_perm module.textures id fun name => [samplerName name]
    rw [List.map_id, ← List.map_eq_flatMap] at split
    rw [List.map_flatMap]
    exact split.symm
  have resources : ((Module.resources module.uniforms module.textures).zipIdx.map
      fun entry => Declaration.resource entry.1 entry.2).map (Declaration.name settings) =
        (Module.resources module.uniforms module.textures).map (Resource.name settings) := by
    conv_rhs => rw [← List.zipIdx_map_fst 0 (Module.resources module.uniforms module.textures)]
    rw [List.map_map, List.map_map]
    rfl
  have records : ((blocks compiled).map Declaration.record).map (Declaration.name settings) =
      (blocks compiled).map structName := List.map_map
  have written : (functions.map Declaration.function).map (Declaration.name settings) =
      functions.map Function.name := List.map_map
  unfold declared made
  rw [List.map_append, List.map_append, List.map_append, resources, records, written,
    Module.resources, List.map_append, List.perm_iff_count]
  intro name
  have counts := List.perm_iff_count.1 pairs name
  simp only [List.count_append] at counts ⊢
  cases module.uniforms with
  | nil => simp only [List.isEmpty_nil, if_true, List.map_nil, List.count_nil]; omega
  | cons first rest =>
      simp only [List.isEmpty_cons, Bool.false_eq_true, if_false, List.map_cons, List.map_nil,
        List.count_cons, List.count_nil, Declaration.name, Resource.name]
      omega

theorem nodup_blocks (compiled : CompiledGraph) : (blocks compiled).Nodup := by
  unfold blocks
  refine List.foldlRecOn _ _ List.nodup_nil ?_
  intro found distinct block _
  split
  · exact distinct
  · rename_i absent
    rw [List.nodup_append_comm, List.singleton_append, List.nodup_cons]
    exact ⟨by simpa using absent, distinct⟩

theorem structName_injective : Function.Injective structName := by
  intro left right
  cases left <;> cases right <;> decide

theorem notMem_structName (block : Block) : '_' ∉ (structName block).toList := by
  cases block <;> decide

theorem mem_functionName (stem : String) (root : NodeId) :
    '_' ∈ (functionName stem root).toList := by
  simp [functionName]

theorem samplerName_ne_functionName (texture stem : String) (root : NodeId) :
    samplerName texture ≠ functionName stem root := by
  intro same
  have letters := congrArg (fun name : String => name.toList.getLast?) same
  simp only [samplerName, functionName, String.toList_append, List.getLast?_append] at letters
  have digits : (toString root.toNat).toList ≠ [] := by
    rw [Nat.toString_eq_ofList_toDigits, String.toList_ofList]
    exact Nat.toDigits_ne_nil
  rw [List.getLast?_eq_some_getLast digits] at letters
  have digit := isDigit_of_mem_toString (List.getLast_mem digits)
  simp only [Option.some_or] at letters
  rw [← Option.some.inj letters] at digit
  cases digit

section Made

variable {whole : CompiledGraph} {functions : List Function} {module : Module}

theorem notMem_of_fixed {name : String}
    (fixed : name ∈ (if module.uniforms.isEmpty then []
      else [TargetSettings.standard.uniformStruct, TargetSettings.standard.uniformBinding]) ++
        (blocks whole).map structName) : '_' ∉ name.toList := by
  have plain : ∀ name ∈ [TargetSettings.standard.uniformStruct,
      TargetSettings.standard.uniformBinding], '_' ∉ name.toList := by decide
  rcases List.mem_append.1 fixed with block | record
  · split at block
    · cases block
    · exact plain name block
  · obtain ⟨block, _, rfl⟩ := List.mem_map.1 record
    exact notMem_structName block

theorem nodup_made (distinct : (functions.map Function.name).Nodup)
    (stems : ∀ name ∈ functions.map Function.name, ∃ stem root, name = functionName stem root) :
    (made .standard whole functions module).Nodup := by
  unfold made
  rw [List.nodup_append]
  refine ⟨?_, distinct, ?_⟩
  · rw [List.nodup_append]
    refine ⟨?_, (nodup_blocks whole).map structName_injective, ?_⟩
    · split
      · exact List.nodup_nil
      · decide
    · intro name block other record same
      subst same
      obtain ⟨kind, _, rfl⟩ := List.mem_map.1 record
      split at block
      · cases block
      · cases kind <;> revert block <;> decide
  · intro name fixed other written same
    subst same
    obtain ⟨stem, root, rfl⟩ := stems name written
    exact notMem_of_fixed fixed (mem_functionName stem root)

theorem samplerName_notMem_made
    (stems : ∀ name ∈ functions.map Function.name, ∃ stem root, name = functionName stem root)
    (texture : String) : samplerName texture ∉ made .standard whole functions module := by
  intro member
  rcases List.mem_append.1 member with fixed | written
  · exact samplerName_ne (notMem_of_fixed fixed) rfl
  · obtain ⟨stem, root, same⟩ := stems _ written
    exact samplerName_ne_functionName texture stem root same

theorem nodup_generated (distinct : (functions.map Function.name).Nodup)
    (stems : ∀ name ∈ functions.map Function.name, ∃ stem root, name = functionName stem root)
    (textures : module.textures.Nodup) :
    (made .standard whole functions module ++ module.textures.map samplerName).Nodup := by
  rw [List.nodup_append]
  refine ⟨nodup_made distinct stems, textures.map samplerName_injective, ?_⟩
  intro name listed other sampler same
  subst same
  obtain ⟨texture, _, rfl⟩ := List.mem_map.1 sampler
  exact samplerName_notMem_made stems texture listed

/-- Two declarations meet only where a texture has the name of a sampler or a made one. -/
theorem nodup_names_iff {settings : TargetSettings}
    (generated : (made settings whole functions module ++ module.textures.map samplerName).Nodup)
    (textures : module.textures.Nodup) :
    ((declared whole functions module).map (Declaration.name settings)).Nodup ↔
      ∀ texture ∈ module.textures, texture ∉ module.textures.map samplerName ∧
        texture ∉ made settings whole functions module := by
  obtain ⟨distinct, samplers, apart⟩ := List.nodup_append.1 generated
  rw [(names_perm settings whole functions module).nodup_iff, List.nodup_append, List.nodup_append]
  constructor
  · rintro ⟨_, ⟨_, _, between⟩, outside⟩ texture listed
    exact ⟨fun sampler => between texture listed texture sampler rfl,
      fun name => outside texture name texture (List.mem_append_left _ listed) rfl⟩
  · intro free
    refine ⟨distinct, ⟨textures, samplers, ?_⟩, ?_⟩
    · intro texture listed other sampler same
      exact (free texture listed).1 (same ▸ sampler)
    · intro name listed other bound same
      subst same
      rcases List.mem_append.1 bound with texture | sampler
      · exact (free name texture).2 listed
      · exact apart name listed name sampler rfl

end Made

def Returned.declares : Returned → List String
  | record _ _ => ["out"]
  | colour _ => []

def Function.declares (function : Function) : List String :=
  function.locals.map Statement.name ++ function.returned.declares

def Function.references (function : Function) : List Reference :=
  (function.locals.map Statement.value ++ function.returned.values).flatMap Code.references

namespace Writes

variable {settings : TargetSettings} {wired : WiredMaterial} {uniforms : Parameters}
  {textures : List String} {compiled : CompiledRoot} {function : Function}

theorem local_or_out (writes : Writes settings wired uniforms textures compiled function)
    {name : String} (declares : name ∈ function.declares) :
    (∃ id, name = localName id) ∨ name = "out" := by
  rcases List.mem_append.1 declares with bound | returned
  · obtain ⟨ids, lets⟩ := writes.lets
    rw [lets.names_eq] at bound
    obtain ⟨id, _, rfl⟩ := List.mem_map.1 bound
    exact Or.inl ⟨id, rfl⟩
  · cases isRecord : function.returned with
    | record block fields =>
        rw [isRecord] at returned
        exact Or.inr (List.mem_singleton.1 returned)
    | colour value =>
        rw [isRecord] at returned
        cases returned

theorem known (writes : Writes settings wired uniforms textures compiled function)
    {reference : Reference} (refers : reference ∈ function.references) :
    reference.Known settings textures := by
  obtain ⟨code, listed, inside⟩ := List.mem_flatMap.1 refers
  rcases List.mem_append.1 listed with bound | returned
  · obtain ⟨ids, lets⟩ := writes.lets
    obtain ⟨statement, member, rfl⟩ := List.mem_map.1 bound
    obtain ⟨before, after, split⟩ := List.append_of_mem member
    exact lets.holds_value split (grants_references settings _) reference inside
  · exact writes.holds_returned (grants_references settings _) code returned reference inside

/-- Of what a function refers to, it can hide a texture only. -/
theorem hides_texture (writes : Writes .standard wired uniforms textures compiled function)
    {reference : Reference} (refers : reference ∈ function.references)
    (hidden : reference.name ∈ function.declares) :
    ∃ texture ∈ textures, reference = .texture texture := by
  have known := writes.known refers
  have shape := writes.local_or_out hidden
  cases reference with
  | texture name => exact ⟨name, known, rfl⟩
  | uniforms block =>
      have isBlock : block = "material" := known
      subst isBlock
      rcases shape with ⟨id, same⟩ | same
      · have member : 'm' ∈ (localName id).toList := same ▸ by decide
        exact absurd member (notMem_localName id (by decide) rfl)
      · exact absurd same (by decide)
  | sampler sampled =>
      rcases shape with ⟨id, same⟩ | same
      · exact absurd same (samplerName_ne (notMem_localName id (by decide) rfl))
      · exact absurd same (samplerName_ne (by decide))

end Writes

variable {configuration : Settings} {graph : Material} {whole : CompiledGraph}

/-- What is made for a module is told apart, and a module declares its identifiers once each exactly
if none of its textures is named like a sampler or like something else that is made for it; a
function hides nothing that it refers to, unless a texture is named like one of its locals or like
the value that it returns. -/
theorem identifiers_distinct (ok : configuration.compile graph = .ok whole)
    (distinct : graph.roots.Nodup) :
    ∃ functions module,
      emitFunctions .standard whole = .ok (functions, module) ∧
      ofCompiled .standard whole = .ok ⟨"// blueprint " ++ whole.digest.hex ++ "\n\n" ++
        String.join ((declared whole functions module).map (Declaration.text .standard)),
        functions.map Function.name⟩ ∧
      (∀ declaration ∈ declared whole functions module, ∃ before after,
        declaration.text .standard =
          before ++ declaration.keyword ++ declaration.name .standard ++ after) ∧
      (made .standard whole functions module ++ module.textures.map samplerName).Nodup ∧
      (((declared whole functions module).map (Declaration.name .standard)).Nodup ↔
        ∀ texture ∈ module.textures, texture ∉ module.textures.map samplerName ∧
          texture ∉ made .standard whole functions module) ∧
      ∀ function ∈ functions,
        (∀ name ∈ function.declares, (∃ id, name = localName id) ∨ name = "out") ∧
        ∀ reference ∈ function.references, reference.name ∈ function.declares →
          ∃ texture ∈ module.textures, reference = .texture texture := by
  obtain ⟨functions, module, emitted, written⟩ := emitFunctions_run ok .standard
  have names : functions.map Function.name =
      whole.compiledRoots.map (rootName whole.wired) := by
    rw [map_eq_map_iff_forall₂]
    exact List.Forall₂.imp (fun _ _ writes => writes.name) written.flip
  have stems : ∀ name ∈ functions.map Function.name, ∃ stem root,
      name = functionName stem root := by
    rw [names]
    intro name member
    obtain ⟨root, _, rfl⟩ := List.mem_map.1 member
    obtain ⟨stem, _, named⟩ := exists_stem whole.wired root
    exact ⟨stem, root.root, named⟩
  have textures : module.textures.Nodup := by
    rw [(emitFunctions_recorded ok emitted).textures]
    exact nodup_eraseDups _
  have generated : (made .standard whole functions module ++
      module.textures.map samplerName).Nodup :=
    nodup_generated (names ▸ CompiledGraph.nodup_rootNames ok distinct) stems textures
  refine ⟨functions, module, emitted, ?_, ?_, generated, nodup_names_iff generated textures, ?_⟩
  · unfold ofCompiled
    rw [emitted]
    simp only [moduleText_eq]
  · exact fun declaration member => Declaration.exists_text .standard member
  · intro function member
    obtain ⟨root, _, writes⟩ := exists_related_of_mem written.flip member
    exact ⟨fun name => writes.local_or_out, fun reference => writes.hides_texture⟩

end Shader

namespace Sample

theorem sampled_names :
    ((Shader.emitFunctions .standard sampledCompiled).toOption.map fun (functions, module) =>
      (module.textures, Shader.made .standard sampledCompiled functions module)) =
      some (["albedo"], ["MaterialParams", "material", "UnlitOutput", "unlit_3"]) := by
  decide +kernel

end Sample

namespace Shader

theorem identifiers_distinct_sampled :
    Sample.sampled.roots.Nodup ∧ ∃ functions module,
      emitFunctions .standard Sample.sampledCompiled = .ok (functions, module) ∧
      module.textures = ["albedo"] ∧
      ((declared Sample.sampledCompiled functions module).map
        (Declaration.name .standard)).Nodup ∧
      ∀ function ∈ functions, ∀ reference ∈ function.references,
        reference.name ∈ function.declares → reference = .texture "albedo" := by
  have distinct : Sample.sampled.roots.Nodup := by decide
  obtain ⟨functions, module, emitted, _, _, _, distinctIff, hidden⟩ :=
    identifiers_distinct Sample.sampled_compile distinct
  have names := Sample.sampled_names
  rw [emitted] at names
  obtain ⟨textures, made⟩ := Prod.mk.inj (Option.some.inj names)
  refine ⟨distinct, functions, module, emitted, textures, ?_, ?_⟩
  · rw [distinctIff, made, textures]
    decide
  · intro function member reference refers declares
    obtain ⟨texture, listed, isTexture⟩ := (hidden function member).2 reference refers declares
    rw [textures, List.mem_singleton] at listed
    rw [isTexture, listed]

end Shader

namespace Sample

def shadowed : Material :=
  ((Graph.empty "Shadowed").insert (.ofKind 0 (.textureRef "out" none)))
    |>.insert (.ofKind 1 (.textureRef "out_sampler" none))
    |>.insert (.ofKind 2 (.constant (.vec2 .zero .one) none))
    |>.insert (.ofKind 3 .textureSample)
    |>.insert (.ofKind 4 .textureSample)
    |>.insert (.ofKind 5 (.output .unlit))
    |>.connect ⟨0, 0, 3, 0⟩
    |>.connect ⟨2, 0, 3, 1⟩
    |>.connect ⟨1, 0, 4, 0⟩
    |>.connect ⟨2, 0, 4, 1⟩
    |>.connect ⟨3, 0, 5, 0⟩
    |>.connect ⟨4, 2, 5, 1⟩
    |>.markRoot 5

def shadowedWired : WiredMaterial :=
  match shadowed.wire .strict with
  | .ok wired => wired
  | .error _ => .bare shadowed

def shadowedCompiled : CompiledGraph :=
  ⟨shadowedWired, shadowedWired.fingerprint [5], shadowedWired.compileRoots .collectAll [] [5]⟩

theorem shadowed_compile :
    Settings.compile ⟨1, .collectAll, .strict, .standard⟩ shadowed = .ok shadowedCompiled := rfl

theorem shadowed_names :
    ((Shader.emitFunctions .standard shadowedCompiled).toOption.map fun (functions, module) =>
      ((Shader.declared shadowedCompiled functions module).map (Shader.Declaration.name .standard),
        functions.map fun function =>
          (function.declares, function.references.contains (.texture "out")))) =
      some (["out", "out_sampler", "out_sampler", "out_sampler_sampler", "UnlitOutput", "unlit_5"],
        [(["out"], true)]) := by
  decide +kernel

end Sample

namespace Shader

/-- A sampler is declared a second time, and a function hides a texture that it samples. -/
theorem identifiers_not_distinct :
    Settings.compile ⟨1, .collectAll, .strict, .standard⟩ Sample.shadowed =
        .ok Sample.shadowedCompiled ∧
      ∃ functions module,
        emitFunctions .standard Sample.shadowedCompiled = .ok (functions, module) ∧
        ¬((declared Sample.shadowedCompiled functions module).map
          (Declaration.name .standard)).Nodup ∧
        ∃ function ∈ functions, ∃ reference ∈ function.references,
          reference.name ∈ function.declares := by
  obtain ⟨functions, module, emitted, _⟩ := emitFunctions_run Sample.shadowed_compile .standard
  have evaluated := Sample.shadowed_names
  rw [emitted] at evaluated
  obtain ⟨names, bodies⟩ := Prod.mk.inj (Option.some.inj evaluated)
  refine ⟨Sample.shadowed_compile, functions, module, emitted, ?_, ?_⟩
  · rw [names]
    decide
  · obtain ⟨function, rfl, body⟩ := List.map_eq_singleton_iff.1 bodies
    obtain ⟨declares, samples⟩ := Prod.mk.inj body
    refine ⟨function, List.mem_singleton_self _, .texture "out", ?_, ?_⟩
    · exact List.contains_iff_mem.1 samples
    · rw [declares]
      exact List.mem_singleton_self _

end Shader

end MaterialGraph
