import MaterialGraph.Proofs.Library.Steps

/-!
What loading does to a library. A library is faithful if it holds what its source makes, with all
that this calls. Loading keeps it faithful whether it succeeds or fails, changes no entry, and adds
only what the path reaches; a path that makes a callable is always loaded, however much of it is
there already, unless it is loaded on behalf of something that it calls itself.
-/

set_option autoImplicit false

namespace MaterialGraph

namespace Library

def answerOf {Value : Type} : EStateM.Result LoadError Library Value → Except LoadError Value
  | .ok value _ => .ok value
  | .error error _ => .error error

def leftBy {Value : Type} : EStateM.Result LoadError Library Value → Library
  | .ok _ library => library
  | .error _ library => library

theorem exists_of_answer_eq_ok {Value : Type} {result : EStateM.Result LoadError Library Value}
    {value : Value} (answer : answerOf result = .ok value) : ∃ next, result = .ok value next := by
  cases result with
  | ok other next =>
      cases answer
      exact ⟨next, rfl⟩
  | error error next => cases answer

theorem answer_eq_cases {Value : Type} {left right : EStateM.Result LoadError Library Value}
    (same : answerOf left = answerOf right) :
    (∃ value next last, left = .ok value next ∧ right = .ok value last) ∨
      ∃ error next last, left = .error error next ∧ right = .error error last := by
  cases left with
  | ok value next =>
      obtain ⟨last, rfl⟩ := exists_of_answer_eq_ok same.symm
      exact Or.inl ⟨value, next, last, rfl, rfl⟩
  | error error next =>
      cases right with
      | ok value last => cases same
      | error other last =>
          cases same
          exact Or.inr ⟨error, next, last, rfl, rfl⟩

def Extends (library next : Library) : Prop :=
  ∀ path callable, library.get? path = some callable → next.get? path = some callable

/-- The library holds what its source makes, and with it all that this calls. -/
structure Faithful (source : Source) (policy : LinkPolicy) (library : Library) : Prop where
  makes : ∀ path callable, library.get? path = some callable → source.Makes policy path callable
  closed : ∀ path callable callee, library.get? path = some callable → source.Calls path callee →
    ∃ called, library.get? callee = some called

/-- A faithful library that holds another one, and besides only paths of a set. -/
structure Grows (source : Source) (policy : LinkPolicy) (scope : String → Prop)
    (library next : Library) : Prop where
  faithful : next.Faithful source policy
  keeps : library.Extends next
  added : ∀ path callable, next.get? path = some callable →
    library.get? path = some callable ∨ scope path

variable {source : Source} {policy : LinkPolicy} {library : Library}

theorem faithful_empty (source : Source) (policy : LinkPolicy) :
    Library.empty.Faithful source policy where
  makes := by
    intro path callable cached
    cases cached
  closed := by
    intro path callable callee cached
    cases cached

namespace Grows

variable {scope : String → Prop} {next last : Library}

theorem refl (faithful : library.Faithful source policy) (scope : String → Prop) :
    library.Grows source policy scope library :=
  ⟨faithful, fun _ _ cached => cached, fun _ _ cached => Or.inl cached⟩

theorem trans (first : library.Grows source policy scope next)
    (second : next.Grows source policy scope last) : library.Grows source policy scope last where
  faithful := second.faithful
  keeps := fun path callable cached => second.keeps path callable (first.keeps path callable cached)
  added := by
    intro path callable cached
    rcases second.added path callable cached with old | new
    · exact first.added path callable old
    · exact Or.inr new

theorem mono (grows : library.Grows source policy scope next) {wider : String → Prop}
    (inside : ∀ path, scope path → wider path) : library.Grows source policy wider next :=
  ⟨grows.faithful, grows.keeps, fun path callable cached =>
    (grows.added path callable cached).imp id (inside path)⟩

end Grows

def Finds (path : String) (callable : Callable) (library : Library) : Prop :=
  library.get? path = some callable

def FindsAll (library : Library) (paths : List String) : Prop :=
  ∀ path ∈ paths, ∃ callable, library.get? path = some callable

theorem Faithful.unique (faithful : library.Faithful source policy) {path : String}
    {callable other : Callable} (cached : library.get? path = some callable)
    (makes : source.Makes policy path other) : callable = other :=
  (faithful.makes path callable cached).unique makes

theorem resolve_of_cached {path : String} {callable : Callable}
    (cached : library.get? path = some callable) : library.resolve path = .resolved callable := by
  unfold resolve
  rw [cached]

/-- Over a library that holds all its callees, a description does not depend on the library. -/
theorem Faithful.instantiate_eq (faithful : library.Faithful source policy)
    {description : Description}
    (callees : String → Callable)
    (made : ∀ callee ∈ description.callPaths, source.Makes policy callee (callees callee))
    (loaded : library.FindsAll description.callPaths) :
    library.instantiate description =
      description.toGraph fun callee => .resolved (callees callee) := by
  apply Description.toGraph_congr
  intro callee member
  obtain ⟨called, cached⟩ := loaded callee member
  rw [resolve_of_cached cached, faithful.unique cached (made callee member)]

theorem Faithful.insert (faithful : library.Faithful source policy) {path : String}
    {callable : Callable} (makes : source.Makes policy path callable)
    (loaded : ∀ callee, source.Calls path callee → ∃ called, library.get? callee = some called) :
    library.Grows source policy (· = path)
      { library with loaded := library.loaded.insert path callable } := by
  have here : ({ library with loaded := library.loaded.insert path callable } : Library).get? path =
      some callable := Table.find?_insert_self path callable library.loaded
  have elsewhere : ∀ other, path ≠ other →
      ({ library with loaded := library.loaded.insert path callable } : Library).get? other =
        library.get? other :=
    fun other different => Table.find?_insert_of_ne different callable library.loaded
  have keeps : library.Extends
      { library with loaded := library.loaded.insert path callable } := by
    intro other called cached
    by_cases same : path = other
    · subst same
      rw [here, faithful.unique cached makes]
    · rw [elsewhere other same]
      exact cached
  have added : ∀ other called,
      ({ library with loaded := library.loaded.insert path callable } : Library).get? other =
        some called → library.get? other = some called ∨ other = path := by
    intro other called cached
    by_cases same : path = other
    · exact Or.inr same.symm
    · rw [elsewhere other same] at cached
      exact Or.inl cached
  refine ⟨⟨?_, ?_⟩, keeps, added⟩
  · intro other called cached
    rcases added other called cached with old | rfl
    · exact faithful.makes other called old
    · cases here.symm.trans cached
      exact makes
  · intro other called callee cached calls
    have known : ∃ found, library.get? callee = some found := by
      rcases added other called cached with old | rfl
      · exact faithful.closed other called callee old calls
      · exact loaded callee calls
    obtain ⟨found, cachedCallee⟩ := known
    exact ⟨found, keeps callee found cachedCallee⟩

/-- Steps that leave faithful libraries faithful and add nothing outside a set; where they end well,
their value and the library that they leave are as said. -/
def Loads {Value : Type} (source : Source) (policy : LinkPolicy) (scope : String → Prop)
    (ends : Value → Library → Prop) (steps : Load Value) : Prop :=
  ∀ library, library.Faithful source policy →
    library.Grows source policy scope (leftBy (steps library)) ∧
      ∀ value, answerOf (steps library) = .ok value → ends value (leftBy (steps library))

theorem Loads.mono {Value : Type} {scope wider : String → Prop} {ends : Value → Library → Prop}
    {steps : Load Value} (loads : Loads source policy scope ends steps)
    (inside : ∀ path, scope path → wider path) : Loads source policy wider ends steps :=
  fun library faithful =>
    ⟨(loads library faithful).1.mono inside, (loads library faithful).2⟩

section Sweep

variable {scope : String → Prop} {step : String → Load Callable} {paths : List String}

theorem loads_forEach
    (each : ∀ path ∈ paths, Loads source policy scope (Finds path) (step path)) :
    Loads source policy scope (fun _ library => library.FindsAll paths) (forEach step paths) := by
  induction paths with
  | nil =>
      intro library faithful
      exact ⟨.refl faithful scope, by simp [FindsAll]⟩
  | cons path rest induction =>
      intro library faithful
      rw [List.forall_mem_cons] at each
      obtain ⟨grows, found⟩ := each.1 library faithful
      rw [forEach_cons]
      cases ran : step path library with
      | error error next =>
          rw [ran] at grows
          exact ⟨grows, fun _ ok => by cases ok⟩
      | ok callable next =>
          rw [ran] at grows found
          obtain ⟨later, foundLater⟩ := induction each.2 next grows.faithful
          refine ⟨grows.trans later, fun value ok => List.forall_mem_cons.2 ⟨?_, ?_⟩⟩
          · exact ⟨callable, later.keeps path callable (found callable rfl)⟩
          · exact foundLater value ok

theorem answer_forEach_of_ok
    (each : ∀ path ∈ paths, Loads source policy scope (Finds path) (step path))
    (ends : ∀ path ∈ paths, ∃ callable, ∀ library, library.Faithful source policy →
      answerOf (step path library) = .ok callable)
    (faithful : library.Faithful source policy) :
    answerOf (forEach step paths library) = .ok () := by
  induction paths generalizing library with
  | nil => rfl
  | cons path rest induction =>
      rw [List.forall_mem_cons] at each ends
      obtain ⟨callable, ok⟩ := ends.1
      obtain ⟨next, ran⟩ := exists_of_answer_eq_ok (ok library faithful)
      have grows := (each.1 library faithful).1
      rw [ran] at grows
      rw [forEach_cons, ran]
      exact induction each.2 ends.2 grows.faithful

/-- A sweep ends alike over two libraries if all its steps do. -/
theorem answer_forEach_eq
    (each : ∀ path ∈ paths, Loads source policy scope (Finds path) (step path))
    (alike : ∀ path ∈ paths, ∀ left right : Library, left.Faithful source policy →
      right.Faithful source policy → answerOf (step path left) = answerOf (step path right))
    {left right : Library} (faithful : left.Faithful source policy)
    (faithfulToo : right.Faithful source policy) :
    answerOf (forEach step paths left) = answerOf (forEach step paths right) := by
  induction paths generalizing left right with
  | nil => rfl
  | cons path rest induction =>
      rw [List.forall_mem_cons] at each alike
      have same := alike.1 left right faithful faithfulToo
      have grows := (each.1 left faithful).1
      have growsToo := (each.1 right faithfulToo).1
      rw [forEach_cons, forEach_cons]
      rcases answer_eq_cases same with
        ⟨callable, next, last, ran, ranToo⟩ | ⟨error, next, last, ran, ranToo⟩
      · rw [ran] at grows
        rw [ranToo] at growsToo
        rw [ran, ranToo]
        exact induction each.2 alike.2 grows.faithful growsToo.faithful
      · rw [ran, ranToo]
        rfl

end Sweep

theorem loads_enroll {path : String} {description : Description}
    (describes : source.Describes path description) (faithful : library.Faithful source policy)
    (loaded : library.FindsAll description.callPaths) :
    library.Grows source policy (· = path) (leftBy (enroll policy path description library)) ∧
      ∀ callable, answerOf (enroll policy path description library) = .ok callable →
        Finds path callable (leftBy (enroll policy path description library)) := by
  rw [enroll_eq]
  cases made : library.instantiate description with
  | error error => exact ⟨.refl faithful _, fun _ ok => by cases ok⟩
  | ok graph =>
      simp only
      cases accepted : Callable.ofGraph path graph policy with
      | error error => exact ⟨.refl faithful _, fun _ ok => by cases ok⟩
      | ok callable =>
          have callees : ∀ callee ∈ description.callPaths,
              source.Makes policy callee ((library.get? callee).getD callable) := by
            intro callee member
            obtain ⟨called, cached⟩ := loaded callee member
            rw [cached]
            exact faithful.makes callee called cached
          rw [faithful.instantiate_eq _ callees loaded] at made
          have makes := Source.Makes.intro _ describes callees made accepted
          refine ⟨faithful.insert makes ?_, ?_⟩
          · intro callee calls
            obtain ⟨again, describesToo, member⟩ := calls
            cases describes.unique describesToo
            exact loaded callee member
          · intro value ok
            cases ok
            exact Table.find?_insert_self path callable library.loaded

/-- Loading keeps a library faithful, and adds nothing but what the path reaches. -/
theorem loads_loadChain (source : Source) (policy : LinkPolicy) (chain : List String)
    (path : String) :
    Loads source policy (Relation.ReflTransGen source.Calls path) (Finds path)
      (loadChain source policy chain path) := by
  induction chain, path using @Source.chain_induction source with
  | step chain path induction =>
      intro library faithful
      have still := Grows.refl faithful (Relation.ReflTransGen source.Calls path)
      rw [loadChain_eq]
      cases cached : library.get? path with
      | some callable =>
          refine ⟨still, ?_⟩
          intro value ok
          cases ok
          exact cached
      | none =>
          simp only
          split
          · exact ⟨still, fun _ ok => by cases ok⟩
          rename_i fresh
          split
          · exact ⟨still, fun _ ok => by cases ok⟩
          rename_i text fetched
          split
          · exact ⟨still, fun _ ok => by cases ok⟩
          rename_i description parsed
          have describes := Source.describes_of_fetch fetched parsed
          have each : ∀ callee ∈ description.callPaths,
              Loads source policy (Relation.ReflTransGen source.Calls path) (Finds callee)
                (loadChain source policy (chain ++ [path]) callee) := by
            intro callee member
            have calls : source.Calls path callee := ⟨description, describes, member⟩
            exact (induction description fresh describes callee member).mono
              fun other reaches => .head calls reaches
          obtain ⟨grows, loaded⟩ := loads_forEach each library faithful
          cases ran : forEach (loadChain source policy (chain ++ [path])) description.callPaths
              library with
          | error error next =>
              rw [ran] at grows
              exact ⟨grows, fun _ ok => by cases ok⟩
          | ok done next =>
              rw [ran] at grows loaded
              obtain ⟨kept, found⟩ := loads_enroll describes grows.faithful (loaded done rfl)
              exact ⟨grows.trans (kept.mono fun other same => same ▸ .refl), found⟩

/-- A path that makes a callable is loaded, on behalf of whatever it does not reach itself. -/
theorem loadChain_of_makes {path : String} {callable : Callable}
    (makes : source.Makes policy path callable) {chain : List String}
    (apart : ∀ caller ∈ chain, ¬Relation.ReflTransGen source.Calls path caller)
    (faithful : library.Faithful source policy) :
    answerOf (loadChain source policy chain path library) = .ok callable := by
  induction makes generalizing chain library with
  | @intro path description graph callable callees describes inner instantiates accepts induction =>
      have makes := Source.Makes.intro callees describes inner instantiates accepts
      have fresh : path ∉ chain := fun listed => apart path listed .refl
      rw [loadChain_eq]
      cases cached : library.get? path with
      | some other =>
          rw [faithful.unique cached makes]
          rfl
      | none =>
          obtain ⟨text, fetched, parsed⟩ := describes.fetch
          have calls : ∀ callee ∈ description.callPaths, source.Calls path callee :=
            fun callee member => ⟨description, describes, member⟩
          have each : ∀ callee ∈ description.callPaths,
              Loads source policy (Relation.ReflTransGen source.Calls path) (Finds callee)
                (loadChain source policy (chain ++ [path]) callee) := by
            intro callee member
            exact (loads_loadChain source policy (chain ++ [path]) callee).mono
              fun other reaches => .head (calls callee member) reaches
          have ends : ∀ callee ∈ description.callPaths, ∃ called, ∀ library : Library,
              library.Faithful source policy →
                answerOf (loadChain source policy (chain ++ [path]) callee library) =
                  .ok called := by
            intro callee member
            refine ⟨callees callee, fun library faithful => induction callee member ?_ faithful⟩
            intro caller listed reaches
            rcases List.mem_append.1 listed with earlier | here
            · exact apart caller earlier (.head (calls callee member) reaches)
            · rw [List.mem_singleton.1 here] at reaches
              exact makes.not_calls_itself (.head' (calls callee member) reaches)
          obtain ⟨next, ran⟩ := exists_of_answer_eq_ok (answer_forEach_of_ok each ends faithful)
          obtain ⟨grows, found⟩ := loads_forEach each library faithful
          rw [ran] at grows found
          have made : next.instantiate description = .ok graph :=
            (grows.faithful.instantiate_eq callees inner (found () rfl)).trans instantiates
          simp only [if_neg fresh, fetched, parsed, ran, enroll_eq, made, accepts]
          rfl

theorem answer_enroll_eq {left right : Library} (faithful : left.Faithful source policy)
    (faithfulToo : right.Faithful source policy) {path : String} {description : Description}
    (loaded : left.FindsAll description.callPaths)
    (loadedToo : right.FindsAll description.callPaths) :
    answerOf (enroll policy path description left) =
      answerOf (enroll policy path description right) := by
  have same : left.instantiate description = right.instantiate description := by
    apply Description.toGraph_congr
    intro callee member
    obtain ⟨called, cached⟩ := loaded callee member
    obtain ⟨other, cachedToo⟩ := loadedToo callee member
    rw [resolve_of_cached cached, resolve_of_cached cachedToo,
      faithful.unique cached (faithfulToo.makes callee other cachedToo)]
  rw [enroll_eq, enroll_eq, same]
  cases right.instantiate description with
  | error error => rfl
  | ok graph =>
      simp only
      cases Callable.ofGraph path graph policy <;> rfl

/-- A load on behalf of callers of the path is answered alike by all faithful libraries. -/
theorem answer_loadChain_eq (source : Source) (policy : LinkPolicy) (chain : List String)
    (path : String) (callers : ∀ caller ∈ chain, Relation.TransGen source.Calls caller path)
    {left right : Library} (faithful : left.Faithful source policy)
    (faithfulToo : right.Faithful source policy) :
    answerOf (loadChain source policy chain path left) =
      answerOf (loadChain source policy chain path right) := by
  induction chain, path using @Source.chain_induction source generalizing left right with
  | step chain path induction =>
      -- What one of them holds can be loaded, so that it does not reach its callers.
      have loaded : ∀ callable, source.Makes policy path callable → ∀ library : Library,
          library.Faithful source policy →
            answerOf (loadChain source policy chain path library) = .ok callable := by
        intro callable makes library faithful
        apply loadChain_of_makes makes _ faithful
        intro caller listed reaches
        exact makes.not_calls_itself ((callers caller listed).trans_right reaches)
      cases cached : left.get? path with
      | some callable =>
          have makes := faithful.makes path callable cached
          rw [loaded callable makes left faithful, loaded callable makes right faithfulToo]
      | none =>
          cases cachedToo : right.get? path with
          | some callable =>
              have makes := faithfulToo.makes path callable cachedToo
              rw [loaded callable makes left faithful, loaded callable makes right faithfulToo]
          | none =>
              rw [loadChain_eq, loadChain_eq, cached, cachedToo]
              simp only
              split
              · rfl
              rename_i fresh
              split
              · rfl
              rename_i text fetched
              split
              · rfl
              rename_i description parsed
              have describes := Source.describes_of_fetch fetched parsed
              have each : ∀ callee ∈ description.callPaths,
                  Loads source policy (fun _ => True) (Finds callee)
                    (loadChain source policy (chain ++ [path]) callee) :=
                fun callee _ =>
                  (loads_loadChain source policy (chain ++ [path]) callee).mono fun _ _ => trivial
              have alike : ∀ callee ∈ description.callPaths, ∀ left right : Library,
                  left.Faithful source policy → right.Faithful source policy →
                  answerOf (loadChain source policy (chain ++ [path]) callee left) =
                    answerOf (loadChain source policy (chain ++ [path]) callee right) := by
                intro callee member left right faithful faithfulToo
                have calls : source.Calls path callee := ⟨description, describes, member⟩
                exact induction description fresh describes callee member
                  (Source.callers_append callers calls) faithful faithfulToo
              have same := answer_forEach_eq each alike faithful faithfulToo
              obtain ⟨grows, found⟩ := loads_forEach each left faithful
              obtain ⟨growsToo, foundToo⟩ := loads_forEach each right faithfulToo
              rcases answer_eq_cases same with
                ⟨done, next, last, ran, ranToo⟩ | ⟨error, next, last, ran, ranToo⟩
              · rw [ran] at grows found
                rw [ranToo] at growsToo foundToo
                rw [ran, ranToo]
                exact answer_enroll_eq grows.faithful growsToo.faithful (found done rfl)
                  (foundToo done rfl)
              · rw [ran, ranToo]
                rfl

end Library

end MaterialGraph
