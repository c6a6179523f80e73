import MaterialGraph.Proofs.Library.Loading

/-!
Loading does not depend on what was loaded before. Whatever was asked of a library, and however it
ended, the library stays faithful to its source; so a path is answered as by a new library, the same
error included. Entries are never replaced, and what they call, at any depth, is what the library
holds for it.
-/

set_option autoImplicit false

namespace MaterialGraph

/-- All calls in the body of a callable are resolved to what the library holds, and so are the
calls in what they call. -/
inductive Callable.ResolvedIn (library : Library) : Callable → Prop where
  | intro {callable : Callable}
      (resolved : ∀ node ∈ callable.body.graph.nodes, ∀ target, node.kind = .call target →
        ∃ callee, target = .resolved callee ∧ library.get? callee.path = some callee)
      (inner : ∀ node ∈ callable.body.graph.nodes, ∀ callee,
        node.kind = .call (.resolved callee) → ResolvedIn library callee) :
      ResolvedIn library callable

namespace Library

inductive Request where
  | load (path : String)
  | preload (description : Description)

def serve (source : Source) (policy : LinkPolicy) (library : Library) : Request → Library
  | .load path => leftBy (load source policy path library)
  | .preload description => library.preload source policy description

variable {source : Source} {policy : LinkPolicy} {library next : Library}

theorem Grows.of_loaded {scope : String → Prop}
    (grows : library.Grows source policy scope next) {other : Library}
    (same : other.loaded = next.loaded) : library.Grows source policy scope other := by
  have found : ∀ path, other.get? path = next.get? path := by
    intro path
    unfold get?
    rw [same]
  refine ⟨⟨?_, ?_⟩, ?_, ?_⟩
  · intro path callable
    rw [found]
    exact grows.faithful.makes path callable
  · intro path callable callee
    rw [found, found]
    exact grows.faithful.closed path callable callee
  · intro path callable
    rw [found]
    exact grows.keeps path callable
  · intro path callable
    rw [found]
    exact grows.added path callable

theorem grows_foldl {Item : Type} {step : Library → Item → Library}
    (each : ∀ item (library : Library), library.Faithful source policy →
      library.Grows source policy (fun _ => True) (step library item))
    (faithful : library.Faithful source policy) (items : List Item) :
    library.Grows source policy (fun _ => True) (items.foldl step library) := by
  induction items generalizing library with
  | nil => exact .refl faithful _
  | cons item rest induction =>
      have first := each item library faithful
      exact first.trans (induction first.faithful)

theorem grows_preloadPath (faithful : library.Faithful source policy) (path : String) :
    library.Grows source policy (fun _ => True) (preloadPath source policy library path) := by
  have grows := ((loads_loadChain source policy [] path).mono fun _ _ => trivial) library faithful
  unfold preloadPath
  split
  · exact .refl faithful _
  · unfold load
    cases ran : loadChain source policy [] path library with
    | ok callable next =>
        rw [ran] at grows
        exact grows.1
    | error error next =>
        rw [ran] at grows
        exact grows.1.of_loaded rfl

theorem grows_serve (faithful : library.Faithful source policy) (request : Request) :
    library.Grows source policy (fun _ => True) (library.serve source policy request) := by
  cases request with
  | load path =>
      exact (((loads_loadChain source policy [] path).mono fun _ _ => trivial) library faithful).1
  | preload description =>
      exact grows_foldl (fun path _ faithful => grows_preloadPath faithful path) faithful
        description.callPaths

/-- A whole run of requests keeps a library faithful and changes no entry. -/
theorem grows_run (faithful : library.Faithful source policy) (requests : List Request) :
    library.Grows source policy (fun _ => True) (requests.foldl (serve source policy) library) :=
  grows_foldl (fun request _ faithful => grows_serve faithful request) faithful requests

theorem Faithful.resolvedIn (faithful : library.Faithful source policy) {path : String}
    {callable : Callable} (makes : source.Makes policy path callable)
    (cached : library.get? path = some callable) : callable.ResolvedIn library := by
  induction makes with
  | @intro path description graph callable callees describes inner instantiates accepts induction =>
      -- A call node of the body stands for an entry that calls a path, and that path is loaded.
      have calls : ∀ node ∈ callable.body.graph.nodes, ∀ target, node.kind = .call target →
          ∃ callee ∈ description.callPaths, target = .resolved (callees callee) ∧
            library.get? callee = some (callees callee) := by
        intro node member target kind
        obtain ⟨old, listed, same⟩ := Callable.exists_node_of_ofGraph accepts member
        obtain ⟨entry, described, mapped⟩ := Description.exists_entry instantiates listed
        have entryKind : entry.kind.map (fun callee => CallTarget.resolved (callees callee)) =
            .call target := by rw [← mapped, same, kind]
        cases source : entry.kind with
        | call callee =>
            rw [source] at entryKind
            cases entryKind
            have called : callee ∈ description.callPaths :=
              Description.mem_callPaths.2 ⟨entry, described, source⟩
            obtain ⟨found, foundCached⟩ :=
              faithful.closed path callable callee cached ⟨description, describes, called⟩
            refine ⟨callee, called, rfl, ?_⟩
            rw [foundCached, faithful.unique foundCached (inner callee called)]
        | _ =>
            rw [source] at entryKind
            cases entryKind
      refine .intro ?_ ?_
      · intro node member target kind
        obtain ⟨callee, called, rfl, found⟩ := calls node member target kind
        refine ⟨callees callee, rfl, ?_⟩
        rw [(inner callee called).path_eq]
        exact found
      · intro node member callee kind
        obtain ⟨path, called, same, found⟩ := calls node member _ kind
        cases same
        exact induction path called found

/-- A library answers as a new one does, whatever was asked of it before; it holds each callable
under its own path, with nothing unresolved in it; and it forgets and replaces nothing. -/
theorem load_independent_of_history (source : Source) (policy : LinkPolicy)
    (requests : List Request) :
    (∀ path, answerOf (load source policy path
        (requests.foldl (serve source policy) Library.empty)) =
      answerOf (load source policy path Library.empty)) ∧
    (∀ path callable,
      (requests.foldl (serve source policy) Library.empty).get? path = some callable →
      callable.path = path ∧
        callable.ResolvedIn (requests.foldl (serve source policy) Library.empty)) ∧
    ∀ (later : List Request) (path : String) (callable : Callable),
      (requests.foldl (serve source policy) Library.empty).get? path = some callable →
      ((requests ++ later).foldl (serve source policy) Library.empty).get? path =
        some callable := by
  have start := faithful_empty source policy
  have faithful := (grows_run start requests).faithful
  refine ⟨?_, ?_, ?_⟩
  · intro path
    exact answer_loadChain_eq source policy [] path (by simp) faithful start
  · intro path callable cached
    have makes := faithful.makes path callable cached
    exact ⟨makes.path_eq, faithful.resolvedIn makes cached⟩
  · intro later path callable cached
    rw [List.foldl_append]
    exact (grows_run faithful later).keeps path callable cached

end Library

end MaterialGraph
