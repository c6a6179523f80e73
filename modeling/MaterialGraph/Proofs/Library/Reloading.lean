import MaterialGraph.Proofs.Description.Reload
import MaterialGraph.Proofs.Description.RoundTrip
import MaterialGraph.Proofs.Library.History

/-!
Graphs saved and loaded again over one library. Whatever its sources held, a library holds each
callable under its own path and made of built nodes, so that its paths resolve soundly; a graph
that it made from a description is therefore restored from its own description.
-/

set_option autoImplicit false

namespace MaterialGraph

namespace Library

inductive Reachable : Library → Prop
  | empty : Reachable Library.empty
  | serve (source : Source) (policy : LinkPolicy) (request : Request) {library : Library}
      (reachable : Reachable library) : Reachable (library.serve source policy request)

section Invariants

variable {holds : Library → Prop} {source : Source} {policy : LinkPolicy}

def Keeps {Value : Type} (holds : Library → Prop) (steps : Load Value) : Prop :=
  ∀ library, holds library → holds (leftBy (steps library))

theorem keeps_forEach {step : String → Load Callable} {paths : List String}
    (each : ∀ path ∈ paths, Keeps holds (step path)) : Keeps holds (forEach step paths) := by
  induction paths with
  | nil => exact fun _ held => held
  | cons path rest ih =>
      obtain ⟨first, others⟩ := List.forall_mem_cons.1 each
      intro library held
      have next := first library held
      rw [forEach_cons]
      cases ran : step path library with
      | ok callable library =>
          rw [ran] at next
          exact ih others library next
      | error error library =>
          rw [ran] at next
          exact next

theorem keeps_loadChain
    (enrolls : ∀ path description, Keeps holds (enroll policy path description))
    (chain : List String) (path : String) : Keeps holds (loadChain source policy chain path) := by
  induction chain, path using @Source.chain_induction source with
  | step chain path induction =>
      intro library held
      rw [loadChain_eq]
      split
      · exact held
      split
      · exact held
      rename_i fresh
      split
      · exact held
      rename_i text fetched
      split
      · exact held
      rename_i description parsed
      have swept := keeps_forEach
        (induction description fresh (Source.describes_of_fetch fetched parsed)) library held
      split
      · rename_i error next ran
        rw [ran] at swept
        exact swept
      · rename_i value next ran
        rw [ran] at swept
        exact enrolls path description next swept

/-- What enrolling a callable and noting a failure keep, a request keeps. -/
theorem holds_serve
    (enrolls : ∀ path description, Keeps holds (enroll policy path description))
    (notes : ∀ library failed, holds library → holds { library with failed })
    {library : Library} (held : holds library) (request : Request) :
    holds (library.serve source policy request) := by
  cases request with
  | load path => exact keeps_loadChain enrolls [] path library held
  | preload description =>
      have each (library : Library) (path : String) (held : holds library) :
          holds (preloadPath source policy library path) := by
        have kept : holds (leftBy (loadChain source policy [] path library)) :=
          keeps_loadChain enrolls [] path library held
        unfold preloadPath
        split
        · exact held
        unfold load
        split
        · rename_i callable next ran
          rw [ran] at kept
          exact kept
        · rename_i error next ran
          rw [ran] at kept
          exact notes next _ kept
      exact List.foldlRecOn description.callPaths _ held
        fun library held path _ => each library path held

end Invariants

theorem sound_resolve_iff {library : Library} :
    library.resolve.Sound ↔ ∀ path callable, library.get? path = some callable →
      callable.path = path ∧ callable.Built := by
  constructor
  · intro sound path callable cached
    have resolved := resolve_of_cached cached
    have named := sound.path path
    rw [resolved] at named
    exact ⟨named, sound.built path callable resolved⟩
  · intro held
    refine ⟨?_, ?_⟩
    · intro path
      cases cached : library.get? path with
      | none =>
          unfold resolve
          rw [cached]
          rfl
      | some callable =>
          rw [resolve_of_cached cached]
          exact (held path callable cached).1
    · intro path callee resolved
      cases cached : library.get? path with
      | none =>
          unfold resolve at resolved
          rw [cached] at resolved
          cases resolved
      | some callable =>
          rw [resolve_of_cached cached] at resolved
          cases resolved
          exact (held path callee cached).2

theorem keeps_sound_enroll (policy : LinkPolicy) (path : String) (description : Description) :
    Keeps (fun library => library.resolve.Sound) (enroll policy path description) := by
  intro library sound
  rw [enroll_eq]
  split
  · exact sound
  rename_i graph instantiated
  split
  · exact sound
  rename_i callable made
  have stored := Description.stored_of_toGraph sound instantiated
  have built : callable.Built :=
    .ofGraph stored.built.distinct stored.built.nodes stored.built.callees made
  show Resolver.Sound (resolve { library with loaded := library.loaded.insert path callable })
  rw [sound_resolve_iff]
  exact Table.forall_insert
    (fun path (callable : Callable) => callable.path = path ∧ callable.Built)
    (sound_resolve_iff.1 sound) ⟨Callable.path_of_ofGraph made, built⟩

theorem Reachable.sound {library : Library} (reachable : library.Reachable) :
    library.resolve.Sound := by
  induction reachable with
  | empty =>
      rw [sound_resolve_iff]
      intro path callable cached
      cases cached
  | serve source policy request reachable ih =>
      refine holds_serve (keeps_sound_enroll policy) ?_ ih request
      intro library failed sound
      rw [sound_resolve_iff] at sound ⊢
      exact sound

/-- Saved and loaded again over one library, a graph is restored with its name, nodes, links and
roots. It is the same graph exactly if no default is the number that its kind provides in other
bits, as a negative zero is where zero is provided. -/
theorem instantiate_ofGraph {library : Library} (reachable : library.Reachable)
    {description : Description} {graph : Material}
    (made : library.instantiate description = .ok graph) :
    library.instantiate (.ofGraph graph) = .ok graph.restored ∧
      (graph.restored = graph ↔
        ∀ node ∈ graph.nodes, ∀ slot ∈ node.inputs, slot.Exact node.kind.inputs) := by
  have stored := Description.stored_of_toGraph reachable.sound made
  exact ⟨Description.toGraph_ofGraph stored, Graph.restored_eq_self_iff stored.built⟩

end Library

theorem Source.fetch_singleton (path text : String) :
    (ofTexts [(path, text)]).fetch path = .ok text := by
  simp [fetch, ofTexts, Table.find?]

theorem Library.load_leaf {source : Source} {policy : LinkPolicy} {library : Library}
    {path text : String} {description : Description} (uncached : library.get? path = none)
    (fetched : source.fetch path = .ok text) (parsed : Description.read text = .ok description)
    (leaf : description.callPaths = []) :
    load source policy path library = enroll policy path description library := by
  rw [load, loadChain_eq, uncached]
  simp only [List.not_mem_nil, if_false, fetched, parsed, leaf]
  rfl

namespace Sample

/-- A function whose argument is zero unless it is given. -/
def offset : Description :=
  ⟨some "Offset",
    [⟨1, false, none, .functionInput (some "x") .scalar (some (.scalar .zero)), []⟩,
      ⟨2, false, none, .functionOutput (some "y") .numeric, []⟩],
    [⟨1, 0, 2, 0⟩]⟩

def offsetGraph : Material :=
  ((Graph.empty "Offset").insert
      (.ofKind 1 (.functionInput (some "x") .scalar (some (.scalar .zero)))))
    |>.insert (.ofKind 2 (.functionOutput (some "y") .numeric))
    |>.connect ⟨1, 0, 2, 0⟩

def offsetWired : WiredMaterial :=
  match offsetGraph.wire .strict with
  | .ok wired => wired
  | .error _ => .bare offsetGraph

def offsetCallee (digest : Digest) : Callable :=
  .mk "Offset" "offset" offsetWired ⟨[[2], [1]], [1, 2]⟩ [((1, 0), .scalar), ((2, 0), .scalar)]
    [⟨0, "x", 1, .scalar, some (.scalar .zero)⟩] [⟨0, "y", 2, .scalar, none⟩] digest

theorem offsetCallee_made :
    Callable.ofGraph "offset" offsetGraph .strict =
      .ok (offsetCallee (offsetWired.fingerprint (Callable.roots offsetGraph))) := by
  have roots : Callable.roots offsetGraph = [2] := by cbv
  have ports : Callable.placeholders offsetGraph = [1, 2] := by cbv
  rw [Callable.ofGraph_eq_ok_iff]
  refine ⟨offsetWired, ⟨[[2], [1]], [1, 2]⟩, [((1, 0), .scalar), ((2, 0), .scalar)],
    ⟨[⟨0, "x", 1, .scalar, some (.scalar .zero)⟩], [⟨0, "y", 2, .scalar, none⟩]⟩, rfl,
    ?_, rfl, rfl, ?_, rfl⟩
  · rw [roots]
    decide +kernel
  · rw [ports]
    rfl

theorem offset_read : Description.read offset.write = .ok offset := by
  apply Description.read_write_of_restores
  intro literal isLiteral number lane
  have zero : literal = .scalar .zero := List.mem_singleton.1 isLiteral
  rw [zero] at lane
  have zero : number = .zero := List.mem_singleton.1 lane
  rw [zero]
  exact ⟨by decide, by decide +kernel⟩

def offsetLibrary (digest : Digest) : Library := ⟨[("offset", offsetCallee digest)], []⟩

theorem offsetLibrary_reachable : ∃ digest, (offsetLibrary digest).Reachable := by
  have instantiated : Library.empty.instantiate offset = .ok offsetGraph := rfl
  have served : Library.empty.serve (.ofTexts [("offset", offset.write)]) .strict
      (.load "offset") =
        offsetLibrary (offsetWired.fingerprint (Callable.roots offsetGraph)) := by
    rw [Library.serve, Library.load_leaf rfl (Source.fetch_singleton "offset" offset.write)
      offset_read rfl, Library.enroll_eq, instantiated]
    simp only [offsetCallee_made]
    rfl
  refine ⟨offsetWired.fingerprint (Callable.roots offsetGraph), ?_⟩
  rw [← served]
  exact .serve _ _ _ .empty

def opposite : Description :=
  ⟨some "Opposite", [⟨1, true, none, .call "offset", [⟨0, .scalar ⟨0x80000000⟩⟩]⟩], []⟩

def oppositeGraph (digest : Digest) (argument : Literal) : Material :=
  ⟨"Opposite", [⟨1, "Call offset", .call (.resolved (offsetCallee digest)),
    [⟨0, "x", .single .scalar, some argument, false, none⟩], [⟨0, "y", some .scalar⟩]⟩], [], [1]⟩

theorem opposite_made (digest : Digest) :
    (offsetLibrary digest).instantiate opposite =
      .ok (oppositeGraph digest (.scalar ⟨0x80000000⟩)) := rfl

theorem opposite_reloaded (digest : Digest) :
    (offsetLibrary digest).instantiate
        (.ofGraph (oppositeGraph digest (.scalar ⟨0x80000000⟩))) =
      .ok (oppositeGraph digest (.scalar .zero)) := rfl

end Sample

namespace Library

/-- A negative zero that is given where zero is provided is lost. -/
theorem reload_not_identical :
    ∃ library description graph, Reachable library ∧
      library.instantiate description = .ok graph ∧
      library.instantiate (.ofGraph graph) ≠ .ok graph := by
  obtain ⟨digest, reachable⟩ := Sample.offsetLibrary_reachable
  refine ⟨_, Sample.opposite, _, reachable, Sample.opposite_made digest, ?_⟩
  rw [Sample.opposite_reloaded]
  intro same
  have defaults : [[some (Literal.scalar .zero)]] = [[some (Literal.scalar ⟨0x80000000⟩)]] :=
    congrArg (fun graph => graph.nodes.map fun node => node.inputs.map InputSlot.default)
      (Except.ok.inj same)
  exact absurd defaults (by decide)

/-- A call is restored with its callee and name, and with the default of the callee. -/
theorem instantiate_ofGraph_opposite :
    ∃ library graph, Reachable library ∧ library.instantiate Sample.opposite = .ok graph ∧
      library.instantiate (.ofGraph graph) = .ok graph.restored := by
  obtain ⟨digest, reachable⟩ := Sample.offsetLibrary_reachable
  exact ⟨_, _, reachable, Sample.opposite_made digest,
    (instantiate_ofGraph reachable (Sample.opposite_made digest)).1⟩

end Library

end MaterialGraph
