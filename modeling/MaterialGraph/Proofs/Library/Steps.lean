import MaterialGraph.Proofs.Library.Calls

/-!
How loading goes. A path is answered from the library, refused, or loaded after all that its text
calls. This is a recursion over whatever the texts call; from a source that stores finitely many
texts it comes to an end, because no path is entered twice in one chain.
-/

set_option autoImplicit false

namespace MaterialGraph

/-- Chains of stored paths cannot grow for ever: what holds of a path behind a chain, given that it
holds of all that the path calls behind the chain made longer by it, holds always. -/
theorem Source.chain_induction {source : Source} {motive : List String → String → Prop}
    (step : ∀ chain path, (∀ description, path ∉ chain → source.Describes path description →
      ∀ callee ∈ description.callPaths, motive (chain ++ [path]) callee) → motive chain path)
    (chain : List String) (path : String) : motive chain path :=
  step chain path fun _ _ _ callee _ => chain_induction step (chain ++ [path]) callee
termination_by source.remaining chain
decreasing_by
  rename_i fresh describes _
  obtain ⟨text, stored, _⟩ := describes
  exact Source.remaining_append_lt (by simpa using fresh) stored

namespace Library

section Equations

variable (policy : LinkPolicy) (path : String) (library : Library)

theorem forEach_cons (step : String → Load Callable) (rest : List String) :
    forEach step (path :: rest) library =
      match step path library with
      | .ok _ next => forEach step rest next
      | .error error next => .error error next := by
  change EStateM.bind (step path) (fun _ => forEach step rest) library = _
  unfold EStateM.bind
  cases step path library <;> rfl

theorem enroll_eq (description : Description) :
    enroll policy path description library =
      match library.instantiate description with
      | .error error => .error (.parse path error) library
      | .ok graph =>
          match Callable.ofGraph path graph policy with
          | .error error => .error (.invalid path error) library
          | .ok callable =>
              .ok callable { library with loaded := library.loaded.insert path callable } := by
  change (match library.instantiate description with
    | .error error => throw (.parse path error)
    | .ok graph => _ : Load Callable) library = _
  cases library.instantiate description with
  | error error => rfl
  | ok graph =>
      simp only
      cases Callable.ofGraph path graph policy <;> rfl

theorem loadChain_eq (source : Source) (chain : List String) :
    loadChain source policy chain path library =
      match library.get? path with
      | some callable => .ok callable library
      | none =>
          if path ∈ chain then .error (.recursive path chain) library
          else
            match source.fetch path with
            | .error reason => .error (.fetch path reason) library
            | .ok text =>
                match Description.read text with
                | .error error => .error (.parse path error) library
                | .ok description =>
                    match forEach (loadChain source policy (chain ++ [path]))
                        description.callPaths library with
                    | .error error next => .error error next
                    | .ok _ next => enroll policy path description next := by
  rw [loadChain]
  change (match library.get? path with
    | some callable => (pure callable : Load Callable)
    | none => _) library = _
  cases library.get? path with
  | some callable => rfl
  | none =>
      simp only [List.contains_iff_mem]
      by_cases repeated : path ∈ chain
      · rw [dif_pos repeated, if_pos repeated]
        rfl
      · rw [dif_neg repeated, if_neg repeated]
        unfold Source.fetch
        cases source.texts.find? path with
        | none => rfl
        | some text =>
            simp only
            cases Description.read text with
            | error error => rfl
            | ok description =>
                change EStateM.bind (forEach _ description.callPaths)
                  (fun _ => enroll policy path description) library = _
                simp only [EStateM.bind]
                cases forEach (loadChain source policy (chain ++ [path])) description.callPaths
                  library <;> rfl

end Equations

/-- Loading by its steps alone, from any source of texts and with nothing said about its end. There
is no result where it goes on for ever. -/
def loadFreely (fetch : String → Except String String) (policy : LinkPolicy) (chain : List String)
    (path : String) (library : Library) : Option (EStateM.Result LoadError Library Callable) :=
  match library.get? path with
  | some callable => some (.ok callable library)
  | none =>
      if path ∈ chain then some (.error (.recursive path chain) library)
      else
        match fetch path with
        | .error reason => some (.error (.fetch path reason) library)
        | .ok text =>
            match Description.read text with
            | .error error => some (.error (.parse path error) library)
            | .ok description => do
                let swept ← description.callPaths.foldlM
                  (fun (before : EStateM.Result LoadError Library Unit) callee =>
                    match before with
                    | .error error library => some (.error error library)
                    | .ok _ library => do
                        match ← library |>.loadFreely fetch policy (chain ++ [path]) callee with
                        | .error error library => some (.error error library)
                        | .ok _ library => some (.ok () library))
                  (.ok () library)
                match swept with
                | .error error library => some (.error error library)
                | .ok _ library => some (enroll policy path description library)
partial_fixpoint

def proceed (step : String → Library → Option (EStateM.Result LoadError Library Callable))
    (before : EStateM.Result LoadError Library Unit) (callee : String) :
    Option (EStateM.Result LoadError Library Unit) :=
  match before with
  | .error error library => some (.error error library)
  | .ok _ library => do
      match ← step callee library with
      | .error error library => some (.error error library)
      | .ok _ library => some (.ok () library)

theorem foldlM_proceed_error
    (step : String → Library → Option (EStateM.Result LoadError Library Callable))
    (error : LoadError) (library : Library) (paths : List String) :
    paths.foldlM (proceed step) (.error error library) = some (.error error library) := by
  induction paths with
  | nil => rfl
  | cons path rest induction =>
      rw [List.foldlM_cons]
      exact induction

theorem foldlM_proceed
    {step : String → Library → Option (EStateM.Result LoadError Library Callable)}
    {known : String → Load Callable} {paths : List String}
    (ends : ∀ path ∈ paths, ∀ library, step path library = some (known path library))
    (library : Library) :
    paths.foldlM (proceed step) (.ok () library) = some (forEach known paths library) := by
  induction paths generalizing library with
  | nil => rfl
  | cons path rest induction =>
      rw [List.forall_mem_cons] at ends
      rw [List.foldlM_cons, forEach_cons]
      simp only [proceed, ends.1 library, Option.bind_eq_bind, Option.bind_some]
      cases known path library with
      | error error next => exact foldlM_proceed_error step error next rest
      | ok callable next => exact induction ends.2 next

/-- From a source that stores finitely many texts, loading comes to its end. -/
theorem loadFreely_eq (source : Source) (policy : LinkPolicy) (chain : List String)
    (path : String) (library : Library) :
    loadFreely source.fetch policy chain path library =
      some (loadChain source policy chain path library) := by
  induction chain, path using @Source.chain_induction source generalizing library with
  | step chain path induction =>
      rw [loadFreely, loadChain_eq]
      cases library.get? path with
      | some callable => rfl
      | none =>
          simp only
          split
          · rfl
          rename_i fresh
          cases fetched : source.fetch path with
          | error reason => rfl
          | ok text =>
              simp only
              cases parsed : Description.read text with
              | error error => rfl
              | ok description =>
                  have describes := Source.describes_of_fetch fetched parsed
                  change Option.bind (description.callPaths.foldlM
                    (proceed (loadFreely source.fetch policy (chain ++ [path])))
                    (.ok () library)) _ = _
                  rw [foldlM_proceed (induction description fresh describes) library,
                    Option.bind_some]
                  dsimp only
                  cases forEach (loadChain source policy (chain ++ [path]))
                    description.callPaths library <;> rfl

end Library

end MaterialGraph
