import MaterialGraph.Callable.Build
import MaterialGraph.Description.Graph
import MaterialGraph.Description.Reader

/-!
The library of callable graphs. Graphs are fetched from a source by path, together with all they
call, and each becomes a callable once. A graph that calls itself, directly or through others, is
refused: the paths being loaded form a chain in which none may repeat.
-/

set_option autoImplicit false

namespace MaterialGraph

/-- A store of graph texts, and what it answers for paths it does not hold. -/
structure Source where
  texts : Table String String
  refusal : String → String

namespace Source

def ofTexts (texts : Table String String) : Source :=
  ⟨texts, fun path => "no graph stored at `" ++ path ++ "`"⟩

/-- How many stored paths are outside a chain. -/
def remaining (source : Source) (chain : List String) : Nat :=
  (source.texts.filter fun entry => !chain.contains entry.1).length

end Source

theorem Source.remaining_append_lt {source : Source} {chain : List String} {path text : String}
    (fresh : ¬ chain.contains path = true) (found : source.texts.find? path = some text) :
    source.remaining (chain ++ [path]) < source.remaining chain := by
  have member := Table.mem_of_find? found
  have split : source.texts.filter (fun entry => !(chain ++ [path]).contains entry.1) =
      (source.texts.filter fun entry => !chain.contains entry.1).filter
        (fun entry => !decide (entry.1 = path)) := by
    rw [List.filter_filter]
    congr 1
    funext entry
    simp [Bool.and_comm]
  unfold Source.remaining
  rw [split]
  apply List.length_filter_lt_length_iff_exists.2
  refine ⟨(path, text), List.mem_filter.2 ⟨member, ?_⟩, by simp⟩
  simpa using fresh

inductive LoadError where
  | fetch (path reason : String)
  | parse (path : String) (error : DescriptionError)
  /-- A graph calls itself through the graphs of a chain. -/
  | recursive (path : String) (chain : List String)
  | invalid (path : String) (error : CompileError)
deriving DecidableEq, Repr

namespace LoadError

def message : LoadError → String
  | fetch path reason => "Failed to fetch `" ++ path ++ "`: " ++ reason
  | parse path error => "Failed to parse `" ++ path ++ "`: " ++ error.message
  | recursive path chain =>
      "Graph `" ++ path ++ "` calls itself through " ++ String.intercalate " -> " chain
  | invalid path error => "Graph `" ++ path ++ "` is not a valid function: " ++ error.message

end LoadError

/-- The callables made so far, and why some paths could not be preloaded. -/
structure Library where
  loaded : Table String Callable
  failed : Table String String

namespace Library

def empty : Library := ⟨[], []⟩

def get? (library : Library) (path : String) : Option Callable := library.loaded.find? path

def size (library : Library) : Nat := library.loaded.length

/-- What a path stands for: its callable, or why there is none. -/
def resolve (library : Library) : Resolver := fun path =>
  match library.get? path with
  | some callable => .resolved callable
  | none => .unresolved path ((library.failed.find? path).getD "not loaded")

/-- The graph of a description, with calls resolved by what is loaded. -/
def instantiate (library : Library) (description : Description) :
    Except DescriptionError Material :=
  description.toGraph library.resolve

/-- Loading may fail; what was loaded before stays. -/
abbrev Load := EStateM LoadError Library

def forEach (step : String → Load Callable) : List String → Load Unit
  | [] => pure ()
  | path :: rest => do
      let _ ← step path
      forEach step rest

/-- Makes and keeps the callable of a description whose callees are loaded. -/
def enroll (policy : LinkPolicy) (path : String) (description : Description) : Load Callable := do
  let library ← get
  match library.instantiate description with
  | .error error => throw (.parse path error)
  | .ok graph =>
      match Callable.ofGraph path graph policy with
      | .error error => throw (.invalid path error)
      | .ok callable => do
          modify fun library => { library with loaded := library.loaded.insert path callable }
          pure callable

/-- Loads a path on behalf of the graphs of a chain. -/
def loadChain (source : Source) (policy : LinkPolicy) (chain : List String) (path : String) :
    Load Callable := do
  let library ← get
  match library.get? path with
  | some callable => pure callable
  | none =>
      if _repeated : chain.contains path then throw (.recursive path chain)
      else
        match _found : source.texts.find? path with
        | none => throw (.fetch path (source.refusal path))
        | some text =>
            match Description.read text with
            | .error error => throw (.parse path error)
            | .ok description => do
                forEach (fun callee => loadChain source policy (chain ++ [path]) callee)
                  description.callPaths
                enroll policy path description
termination_by source.remaining chain
decreasing_by exact Source.remaining_append_lt _repeated _found

def load (source : Source) (policy : LinkPolicy) (path : String) : Load Callable :=
  loadChain source policy [] path

/-- Loads a path and, if that fails, keeps the reason. -/
def preloadPath (source : Source) (policy : LinkPolicy) (library : Library) (path : String) :
    Library :=
  if (library.get? path).isSome then library
  else
    match load source policy path library with
    | .ok _ library => library
    | .error error library =>
        { library with failed := library.failed.insert path error.message }

def preload (source : Source) (policy : LinkPolicy) (library : Library)
    (description : Description) : Library :=
  description.callPaths.foldl (preloadPath source policy) library

/-- Loads everything a description calls, and makes its graph. -/
def loadGraph (source : Source) (policy : LinkPolicy) (library : Library)
    (description : Description) : Library × Except DescriptionError Material :=
  let library := library.preload source policy description
  (library, library.instantiate description)

end Library

end MaterialGraph
