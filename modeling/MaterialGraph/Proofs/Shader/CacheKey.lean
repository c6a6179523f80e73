import MaterialGraph.Proofs.Compile.Locality
import MaterialGraph.Proofs.Digest.Stream
import MaterialGraph.Proofs.Shader.Typing

/-!
Fingerprints as keys of shaders. The bytes under the digest say everything about the nodes that
feed the roots, but neither in which order the roots are compiled nor in which order links lead into
a node. With these orders, and with calls that reach the same graphs, the bytes fix the shader.
Without them they do not, for a root may fail because of one that is compiled before it.
-/

set_option autoImplicit false

namespace MaterialGraph

theorem Kind.exists_call_of_unresolved {kind : Kind (CallTarget Callable)}
    (unresolved : kind.isUnresolvedCall = true) : ∃ target, kind = .call target := by
  cases kind with
  | call target => exact ⟨target, rfl⟩
  | _ => cases unresolved

namespace Shader

theorem ofCompiled_congr {left right : CompiledGraph}
    (roots : left.compiledRoots = right.compiledRoots) (digest : left.digest = right.digest)
    (sameBlocks : ∀ root ∈ left.compiledRoots,
      block? left.wired root.root = block? right.wired root.root) (settings : TargetSettings) :
    ofCompiled settings left = ofCompiled settings right := by
  have functions : left.compiledRoots.mapM (rootFunction settings left.wired) =
      right.compiledRoots.mapM (rootFunction settings right.wired) := by
    rw [← roots]
    apply mapM_congr
    intro root member
    simp only [rootFunction, sameBlocks root member]
  have blocksEq : blocks left = blocks right := by
    have found : (left.compiledRoots.filterMap fun root => block? left.wired root.root) =
        right.compiledRoots.filterMap fun root => block? right.wired root.root := by
      rw [← roots]
      exact List.filterMap_congr sameBlocks
    unfold blocks
    rw [found]
  have emitted : emitFunctions settings left = emitFunctions settings right := by
    unfold emitFunctions
    rw [functions]
  have text : moduleText settings left = moduleText settings right := by
    unfold moduleText
    rw [digest, blocksEq]
  unfold ofCompiled
  rw [emitted, text]

/-- Assembly of a compiled graph never fails, and lists the functions of the compiled roots. -/
theorem exists_ofCompiled {configuration : Settings} {graph : Material} {compiled : CompiledGraph}
    (ok : configuration.compile graph = .ok compiled) (settings : TargetSettings) :
    ∃ shader, ofCompiled settings compiled = .ok shader ∧
      shader.functions = compiled.compiledRoots.map (rootName compiled.wired) := by
  obtain ⟨functions, module, emitted, written⟩ := emitFunctions_run ok settings
  unfold ofCompiled
  rw [emitted]
  refine ⟨_, rfl, ?_⟩
  rw [map_eq_map_iff_forall₂]
  apply List.Forall₂.imp _ written.flip
  intro function root writes
  exact writes.name

theorem block?_of_node {wired : WiredMaterial} {id : NodeId} {node : MaterialNode}
    (found : wired.node? id = some node) :
    block? wired id = match node.kind with
      | .output block => some block
      | _ => none := by
  unfold block?
  rw [found]
  obtain ⟨_, _, kind, _, _⟩ := node
  cases kind <;> rfl

theorem block?_eq_of_alike {left right : WiredMaterial} {root : NodeId}
    {node other : MaterialNode} (found : left.node? root = some node)
    (foundToo : right.node? root = some other) (alike : node.Alike other) :
    block? left root = block? right root := by
  rw [block?_of_node found, block?_of_node foundToo]
  rcases alike with ⟨name, rfl⟩ | ⟨unresolved, unresolvedToo⟩
  · rfl
  · obtain ⟨target, isCall⟩ := Kind.exists_call_of_unresolved unresolved
    obtain ⟨other, isCallToo⟩ := Kind.exists_call_of_unresolved unresolvedToo
    rw [isCall, isCallToo]

end Shader

theorem InputSlot.eq_of_record {layout slot other : InputSlot} (fits : layout.Fits slot)
    (fitsToo : layout.Fits other) (same : Wired.inputRecord slot = Wired.inputRecord other) :
    slot = other := by
  have binding := congrArg InputRecord.binding same
  have default := congrArg InputRecord.default same
  obtain ⟨_, _, _, _, _, _⟩ := slot
  obtain ⟨_, _, _, _, _, _⟩ := other
  obtain ⟨rfl, rfl, rfl, rfl, _⟩ := fits
  obtain ⟨ids, names, allowed, required, _⟩ := fitsToo
  simp_all [Wired.inputRecord]

theorem InputSlot.eq_of_records {layouts slots others : List InputSlot}
    (fits : List.Forall₂ InputSlot.Fits layouts slots)
    (fitsToo : List.Forall₂ InputSlot.Fits layouts others)
    (same : slots.map Wired.inputRecord = others.map Wired.inputRecord) : slots = others := by
  induction fits generalizing others with
  | nil =>
      cases fitsToo
      rfl
  | cons first rest induction =>
      cases fitsToo with
      | cons firstToo restToo =>
          rw [List.map_cons, List.map_cons, List.cons.injEq] at same
          rw [eq_of_record first firstToo same.1, induction restToo same.2]

namespace Kind

def SameCallee (left right : Kind (CallTarget Callable)) : Prop :=
  ∀ callee other, left = .call (.resolved callee) → right = .call (.resolved other) →
    callee.path = other.path → callee.digest = other.digest → callee = other

/-- Kinds that record the same are the same, or calls that could not be resolved. -/
theorem eq_or_unresolved {left right : Kind (CallTarget Callable)}
    (paths : left.map CallSite.path = right.map CallSite.path)
    (digests : Wired.calleeDigest left = Wired.calleeDigest right)
    (callees : left.SameCallee right) :
    left = right ∨ (left.isUnresolvedCall = true ∧ right.isUnresolvedCall = true) := by
  cases left with
  | call target =>
      cases right with
      | call other =>
          cases target with
          | unresolved _ _ =>
              cases other with
              | unresolved _ _ => exact Or.inr ⟨rfl, rfl⟩
              | resolved _ => cases digests
          | resolved callee =>
              cases other with
              | unresolved _ _ => cases digests
              | resolved other =>
                  have same := callees callee other rfl rfl (Kind.call.inj paths)
                    (Option.some.inj digests)
                  exact Or.inl (same ▸ rfl)
      | _ => cases paths
  | _ =>
      cases right <;> cases paths
      exact Or.inl rfl

end Kind

theorem Node.alike_of_record {left right : MaterialNode} (laid : left.Laid) (laidToo : right.Laid)
    (ids : left.id = right.id) (paths : left.kind.map CallSite.path = right.kind.map CallSite.path)
    (digests : Wired.calleeDigest left.kind = Wired.calleeDigest right.kind)
    (inputs : left.inputs.map Wired.inputRecord = right.inputs.map Wired.inputRecord)
    (callees : left.kind.SameCallee right.kind) : left.Alike right := by
  rcases Kind.eq_or_unresolved paths digests callees with kinds | unresolved
  · have inputsEq : left.inputs = right.inputs :=
      InputSlot.eq_of_records laid.inputs (kinds ▸ laidToo.inputs) inputs
    have outputsEq : left.outputs = right.outputs := by
      rw [laid.outputs, laidToo.outputs, kinds]
    left
    refine ⟨right.name, ?_⟩
    cases left
    cases right
    simp_all [Node.withName]
  · exact Or.inr unresolved

namespace Wired

variable {left right : WiredMaterial}

/-- Graphs with the same records agree on what feeds the roots, if the links into these nodes come
in the same order and calls reach the same graphs. -/
theorem SameRecords.agreeOn {leftRoots rightRoots : List NodeId}
    (same : SameRecords left right leftRoots rightRoots) (coherent : left.Coherent)
    (coherentToo : right.Coherent)
    (links : ∀ id ∈ left.reachable leftRoots, left.incoming id = right.incoming id)
    (callees : ∀ id node other, left.node? id = some node → right.node? id = some other →
      node.kind.SameCallee other.kind) :
    AgreeOn (· ∈ left.reachable leftRoots) left right := by
  refine ⟨⟨links, ?_⟩, ?_⟩
  · intro id member producer listed
    exact mem_reachable.2 ((mem_reachable.1 member).of_leads (mem_incoming.1 listed))
  · intro id member
    obtain ⟨node, other, found, foundToo, _, paths, digests, inputs⟩ := same.nodes id member
    have ids : node.id = other.id :=
      (Graph.mem_of_node? found).2.trans (Graph.mem_of_node? foundToo).2.symm
    exact ⟨node, other, found, foundToo, Node.alike_of_record (coherent.laid found)
      (coherentToo.laid foundToo) ids paths digests inputs (callees id node other found foundToo)⟩

theorem mem_reachable_of_root {wired : WiredMaterial} {roots : List NodeId} {root : NodeId}
    (listed : root ∈ roots) (present : wired.graph.contains root = true) :
    root ∈ wired.reachable roots :=
  mem_reachable.2 ⟨root, listed, present, Relation.ReflTransGen.refl⟩

theorem SameRecords.contains_eq {roots : List NodeId} (same : SameRecords left right roots roots)
    {root : NodeId} (listed : root ∈ roots) :
    left.graph.contains root = right.graph.contains root := by
  rw [Bool.eq_iff_iff]
  constructor
  · intro present
    obtain ⟨_, other, _, found, _⟩ := same.nodes root (mem_reachable_of_root listed present)
    exact Graph.contains_iff.2 ⟨other, found⟩
  · intro present
    have reached := (same.reachable root).2 (mem_reachable_of_root listed present)
    obtain ⟨node, _, found, _⟩ := same.nodes root reached
    exact Graph.contains_iff.2 ⟨node, found⟩

end Wired

namespace Graph

/-- Calls of one path and one digest reach one graph, as they do when one library is read. -/
def SameCallees (left right : Material) : Prop :=
  ∀ node ∈ left.nodes, ∀ other ∈ right.nodes, node.kind.SameCallee other.kind

theorem SameCallees.wired {left right : Material} (callees : left.SameCallees right)
    {policy : LinkPolicy} {leftWired rightWired : WiredMaterial}
    (leftWire : left.wire policy = .ok leftWired) (rightWire : right.wire policy = .ok rightWired) :
    ∀ id node other, leftWired.node? id = some node → rightWired.node? id = some other →
      node.kind.SameCallee other.kind := by
  intro id node other found foundToo
  obtain ⟨old, member, kinds⟩ := (wires_of_wire leftWire).exists_kind found
  obtain ⟨oldToo, memberToo, kindsToo⟩ := (wires_of_wire rightWire).exists_kind foundToo
  rw [← kinds, ← kindsToo]
  exact callees old member oldToo memberToo

end Graph

/-- Two graphs with the same bytes, the same order of roots and the same order of links compile the
same roots, and one shader is assembled from either. -/
theorem Shader.eq_of_stream {settings : Settings} {left right : Material}
    (leftBuilt : left.Built) (rightBuilt : right.Built) (leftShort : left.ShortTexts)
    (rightShort : right.ShortTexts) {leftCompiled rightCompiled : CompiledGraph}
    (leftOk : settings.compile left = .ok leftCompiled)
    (rightOk : settings.compile right = .ok rightCompiled)
    (same : leftCompiled.wired.stream left.roots = rightCompiled.wired.stream right.roots)
    (roots : left.roots = right.roots)
    (links : ∀ id ∈ leftCompiled.wired.reachable left.roots,
      leftCompiled.wired.incoming id = rightCompiled.wired.incoming id)
    (callees : left.SameCallees right) (target : TargetSettings) :
    leftCompiled.compiledRoots = rightCompiled.compiledRoots ∧
      ∃ shader, ofCompiled target leftCompiled = .ok shader ∧
        ofCompiled target rightCompiled = .ok shader := by
  obtain ⟨leftWired, leftWire, rfl⟩ := CompiledGraph.compile_eq_ok leftOk
  obtain ⟨rightWired, rightWire, rfl⟩ := CompiledGraph.compile_eq_ok rightOk
  have coherent := Wired.coherent_of_wire leftBuilt leftWire
  have coherentToo := Wired.coherent_of_wire rightBuilt rightWire
  rw [← roots] at same
  have records : Wired.SameRecords leftWired rightWired left.roots left.roots :=
    Wired.sameRecords_of_stream coherent coherentToo (leftShort.wired leftWire)
      (rightShort.wired rightWire) same
  have agree := records.agreeOn coherent coherentToo links (callees.wired leftWire rightWire)
  have among : ∀ root ∈ left.roots, leftWired.graph.contains root = true →
      root ∈ leftWired.reachable left.roots :=
    fun root listed present => Wired.mem_reachable_of_root listed present
  have compiled : leftWired.compiledRoots settings.errorPolicy [] left.roots =
      rightWired.compiledRoots settings.errorPolicy [] right.roots := by
    rw [← roots]
    exact agree.compiledRoots_eq coherent coherentToo settings.errorPolicy
      (fun root listed => records.contains_eq listed) among []
  have digests : leftWired.fingerprint left.roots = rightWired.fingerprint right.roots := by
    rw [← roots, Wired.fingerprint, same, Wired.fingerprint]
  obtain ⟨shader, assembled, _⟩ := exists_ofCompiled leftOk target
  refine ⟨compiled, shader, assembled, ?_⟩
  rw [← assembled]
  symm
  apply ofCompiled_congr
  · exact compiled
  · exact digests
  intro root member
  have listed := CompiledGraph.mem_roots_of_mem leftOk member
  have alone := CompiledGraph.compileRoot_of_mem leftOk member
  have present := (Wired.compileRoot_eq_ok_iff.1 alone).1
  obtain ⟨node, other, found, foundToo, alike⟩ := agree.nodes root.root (among _ listed present)
  exact block?_eq_of_alike found foundToo alike

namespace Sample

/-- The graph that squares the sine of a uniform, stored in another order, with a name for a node
and with one that feeds nothing. -/
def resquared : Material :=
  ((Graph.empty "Square").insert (.ofKind 3 (.output .unlit)))
    |>.insert ((Node.ofKind 2 (.math .multiply)).withName "Square")
    |>.insert (.ofKind 8 (.math .cos))
    |>.insert (.ofKind 1 (.math .sin))
    |>.insert (.ofKind 0 (.constant (.scalar .one) (some "gain")))
    |>.connect ⟨2, 0, 3, 0⟩
    |>.connect ⟨1, 0, 8, 0⟩
    |>.connect ⟨1, 0, 2, 1⟩
    |>.connect ⟨1, 0, 2, 0⟩
    |>.connect ⟨0, 0, 1, 0⟩
    |>.markRoot 3

def resquaredWired : WiredMaterial :=
  match resquared.wire .strict with
  | .ok wired => wired
  | .error _ => .bare resquared

def resquaredCompiled : CompiledGraph :=
  ⟨resquaredWired, resquaredWired.fingerprint [3], resquaredWired.compileRoots .collectAll [] [3]⟩

theorem resquared_built : resquared.Built := by
  apply Graph.Built.markRoot
  iterate 5 apply Graph.Built.connect
  refine Graph.Built.insert (Graph.Built.insert (Graph.Built.insert (Graph.Built.insert
    (Graph.Built.insert (Graph.Built.empty _) (.new _ _) ?_) (.named _ (.new _ _)) ?_)
    (.new _ _) ?_) (.new _ _) ?_) (.new _ _) ?_ <;>
    intro inner isCall <;> cases isCall

theorem stream_resquared : squaredWired.stream [3] = resquaredWired.stream [3] := by
  have records : squaredWired.records [3] = resquaredWired.records [3] := by cbv
  unfold Wired.stream
  rw [records]

theorem links_resquared : ∀ id ∈ squaredWired.reachable [3],
    squaredWired.incoming id = resquaredWired.incoming id := by
  rw [← List.map_inj_left]
  decide +kernel

theorem squared_sameCallees : squared.SameCallees resquared := by
  intro node member other memberToo callee calleeToo isCall
  rw [squared_nodes] at member
  simp only [List.mem_cons, List.not_mem_nil, or_false] at member
  rcases member with rfl | rfl | rfl | rfl <;> cases isCall

end Sample

theorem Shader.eq_of_stream_squared :
    Sample.squaredCompiled.wired.stream Sample.squared.roots =
        Sample.resquaredCompiled.wired.stream Sample.resquared.roots ∧
      Sample.squaredCompiled.compiledRoots = Sample.resquaredCompiled.compiledRoots ∧
      ∃ shader, ofCompiled .standard Sample.squaredCompiled = .ok shader ∧
        ofCompiled .standard Sample.resquaredCompiled = .ok shader := by
  have short : Sample.squared.ShortTexts := by
    unfold Graph.ShortTexts
    decide
  have shortToo : Sample.resquared.ShortTexts := by
    unfold Graph.ShortTexts
    decide
  have ok : Settings.compile ⟨1, .collectAll, .strict, .standard⟩ Sample.squared =
      .ok Sample.squaredCompiled := Sample.squared_compile rfl rfl
  have okToo : Settings.compile ⟨1, .collectAll, .strict, .standard⟩ Sample.resquared =
      .ok Sample.resquaredCompiled := rfl
  refine ⟨Sample.stream_resquared, ?_⟩
  exact eq_of_stream Sample.squared_built Sample.resquared_built short shortToo ok okToo
    Sample.stream_resquared rfl Sample.links_resquared Sample.squared_sameCallees .standard

namespace Sample

def gains (roots : List NodeId) : Material :=
  roots.foldl Graph.markRoot
    (((Graph.empty "Gains").insert (.ofKind 1 (.constant (.scalar .one) (some "gain"))))
      |>.insert (.ofKind 2 (.constant (.vec3 .one .zero .zero) (some "gain"))))

def gainsWired (roots : List NodeId) : WiredMaterial :=
  match (gains roots).wire .lenient with
  | .ok wired => wired
  | .error _ => .bare (gains roots)

def gainsCompiled (roots : List NodeId) : CompiledGraph :=
  ⟨gainsWired roots, (gainsWired roots).fingerprint roots,
    (gainsWired roots).compileRoots .collectAll [] roots⟩

theorem stream_gains : (gainsWired [1, 2]).stream [1, 2] = (gainsWired [2, 1]).stream [2, 1] := by
  have records : (gainsWired [1, 2]).records [1, 2] = (gainsWired [2, 1]).records [2, 1] := by cbv
  unfold Wired.stream
  rw [records]

end Sample

namespace Shader

/-- Roots in another order leave the bytes as they are, but another root loses the conflict over a
parameter, and the shader holds another function. -/
theorem stream_not_key :
    ∃ left right leftShader rightShader,
      Settings.standard.compile (Sample.gains [1, 2]) = .ok left ∧
      Settings.standard.compile (Sample.gains [2, 1]) = .ok right ∧
      left.wired.stream (Sample.gains [1, 2]).roots =
        right.wired.stream (Sample.gains [2, 1]).roots ∧
      left.compiledRoots.map CompiledRoot.root = [1] ∧
      right.compiledRoots.map CompiledRoot.root = [2] ∧
      ofCompiled Settings.standard.target left = .ok leftShader ∧
      ofCompiled Settings.standard.target right = .ok rightShader ∧
      leftShader.functions = ["preview_1"] ∧ rightShader.functions = ["preview_2"] := by
  have first : Settings.standard.compile (Sample.gains [1, 2]) =
      .ok (Sample.gainsCompiled [1, 2]) := rfl
  have second : Settings.standard.compile (Sample.gains [2, 1]) =
      .ok (Sample.gainsCompiled [2, 1]) := rfl
  have compiled : ((Sample.gainsWired [1, 2]).compiledRoots .collectAll [] [1, 2]).map
      CompiledRoot.root = [1] := by decide +kernel
  have compiledToo : ((Sample.gainsWired [2, 1]).compiledRoots .collectAll [] [2, 1]).map
      CompiledRoot.root = [2] := by decide +kernel
  have names : ((Sample.gainsWired [1, 2]).compiledRoots .collectAll [] [1, 2]).map
      (rootName (Sample.gainsWired [1, 2])) = ["preview_1"] := by decide +kernel
  have namesToo : ((Sample.gainsWired [2, 1]).compiledRoots .collectAll [] [2, 1]).map
      (rootName (Sample.gainsWired [2, 1])) = ["preview_2"] := by decide +kernel
  obtain ⟨shader, assembled, functions⟩ := exists_ofCompiled first Settings.standard.target
  obtain ⟨other, assembledToo, functionsToo⟩ := exists_ofCompiled second Settings.standard.target
  exact ⟨_, _, shader, other, first, second, Sample.stream_gains, compiled, compiledToo, assembled,
    assembledToo, functions.trans names, functionsToo.trans namesToo⟩

end Shader

end MaterialGraph
