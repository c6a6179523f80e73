import MaterialGraph.Compile.Root

/-!
Compiling a graph. Its roots succeed or fail one by one, except that they share one uniform block:
a root that uses a parameter at another type than an earlier root fails.
-/

set_option autoImplicit false

namespace MaterialGraph

structure RootOutcome where
  root : NodeId
  outcome : Except CompileError CompiledRoot

structure CompiledGraph where
  wired : WiredMaterial
  digest : Digest
  /-- One outcome for each root, in order. -/
  outcomes : List RootOutcome

namespace CompiledGraph

def isSuccess (compiled : CompiledGraph) : Bool :=
  compiled.outcomes.all fun entry => entry.outcome.isOk

def compiledRoots (compiled : CompiledGraph) : List CompiledRoot :=
  compiled.outcomes.filterMap fun entry => entry.outcome.toOption

def failures (compiled : CompiledGraph) : List (NodeId × CompileError) :=
  compiled.outcomes.filterMap fun entry =>
    match entry.outcome with
    | .ok _ => none
    | .error error => some (entry.root, error)

end CompiledGraph

namespace Wired

/-- Compiles roots in order; the parameters of those that succeed are shared. -/
def compileRoots (wired : WiredMaterial) (policy : ErrorPolicy) :
    Parameters → List NodeId → List RootOutcome
  | _, [] => []
  | shared, root :: rest =>
      match wired.compileRoot policy root with
      | .error error => ⟨root, .error error⟩ :: compileRoots wired policy shared rest
      | .ok compiled =>
          match shared.merge compiled.parameters with
          | .error conflict =>
              ⟨root, .error (.parameter conflict)⟩ :: compileRoots wired policy shared rest
          | .ok merged => ⟨root, .ok compiled⟩ :: compileRoots wired policy merged rest

end Wired

namespace Settings

/-- Compiles all roots of a graph. Only a link that the policy refuses fails the whole graph. -/
def compile (settings : Settings) (graph : Material) : Except CompileError CompiledGraph :=
  match graph.wire settings.linkPolicy with
  | .error fault => .error (.structural fault)
  | .ok wired =>
      .ok ⟨wired, wired.fingerprint graph.roots,
        wired.compileRoots settings.errorPolicy [] graph.roots⟩

/-- The evaluation order over all roots at once. -/
def plan (settings : Settings) (graph : Material) : Except CompileError Schedule :=
  match graph.wire settings.linkPolicy with
  | .error fault => .error (.structural fault)
  | .ok wired =>
      match wired.schedule graph.roots with
      | .error cycle => .error (.cycle cycle)
      | .ok schedule => .ok schedule

end Settings

end MaterialGraph
