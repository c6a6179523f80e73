import MaterialGraph.Proofs.Library.Loading
import Mathlib.Data.List.Chain

/-!
What a new library accepts: exactly the paths from which everything called is stored, readable and
valid and nothing calls itself. It then holds all of this and no more. Where a path is refused as
recursive, the chain that is reported leads back into itself.
-/

set_option autoImplicit false

namespace MaterialGraph

namespace Library

variable {source : Source} {policy : LinkPolicy}

theorem forEach_eq_error {step : String → Load Callable} {paths : List String}
    {library next : Library} {error : LoadError}
    (failed : forEach step paths library = .error error next) :
    ∃ path ∈ paths, ∃ before, step path before = .error error next := by
  induction paths generalizing library with
  | nil => cases failed
  | cons path rest induction =>
      rw [forEach_cons] at failed
      cases ran : step path library with
      | error other last =>
          rw [ran] at failed
          cases failed
          exact ⟨path, List.mem_cons_self, library, ran⟩
      | ok callable between =>
          rw [ran] at failed
          obtain ⟨later, member, before, stopped⟩ := induction failed
          exact ⟨later, List.mem_cons_of_mem _ member, before, stopped⟩

theorem enroll_ne_recursive {path called : String} {description : Description}
    {library next : Library} {chain : List String} :
    enroll policy path description library ≠ .error (.recursive called chain) next := by
  rw [enroll_eq]
  cases library.instantiate description with
  | error error => exact fun failed => by cases failed
  | ok graph =>
      simp only
      cases Callable.ofGraph path graph policy <;> exact fun failed => by cases failed

end Library

namespace Source

/-- A chain of paths from a start to a path: none is listed twice, each calls the next, and the
last calls the path. -/
structure Trail (source : Source) (start : String) (chain : List String) (path : String) :
    Prop where
  distinct : chain.Nodup
  calls : (chain ++ [path]).IsChain source.Calls
  starts : (chain ++ [path]).head? = some start

variable {source : Source} {start : String} {chain : List String} {path : String}

theorem trail_nil (source : Source) (start : String) : source.Trail start [] start :=
  ⟨List.nodup_nil, .singleton start, rfl⟩

theorem Trail.extend (trail : source.Trail start chain path) (fresh : path ∉ chain)
    {callee : String} (calls : source.Calls path callee) :
    source.Trail start (chain ++ [path]) callee where
  distinct := List.nodup_append.2 ⟨trail.distinct, List.nodup_singleton path, by
    intro old listed new here same
    rw [List.mem_singleton.1 here] at same
    exact fresh (same ▸ listed)⟩
  calls := by
    rw [List.append_assoc]
    exact List.isChain_append_cons_cons.2 ⟨trail.calls, calls, .singleton callee⟩
  starts := by
    rw [List.head?_append, trail.starts]
    rfl

/-- All that a path reaches is stored, readable, and a valid function over the callables of what it
calls itself; and nothing of it calls itself, directly or through others. -/
structure Sound (source : Source) (policy : LinkPolicy) (path : String) : Prop where
  valid : ∃ callables : String → Callable, ∀ other, Relation.ReflTransGen source.Calls path other →
    ∃ text description graph, source.texts.find? other = some text ∧
      Description.read text = .ok description ∧
      description.toGraph (fun callee => .resolved (callables callee)) = .ok graph ∧
      Callable.ofGraph other graph policy = .ok (callables other)
  acyclic : ∀ other, Relation.ReflTransGen source.Calls path other →
    ¬Relation.TransGen source.Calls other other

variable {policy : LinkPolicy}

theorem Sound.makes (sound : source.Sound policy path) :
    ∃ callable, source.Makes policy path callable := by
  obtain ⟨callables, valid⟩ := sound.valid
  refine ⟨callables path, ?_⟩
  -- The chain is what leads from the start to a path: with no cycle, no path is in its own chain.
  have all : ∀ (chain : List String) (other : String),
      (∀ caller ∈ chain, Relation.TransGen source.Calls caller other) →
      Relation.ReflTransGen source.Calls path other →
      source.Makes policy other (callables other) := by
    intro chain other
    induction chain, other using @Source.chain_induction source with
    | step chain other induction =>
        intro callers reaches
        obtain ⟨text, description, graph, stored, parsed, instantiates, accepts⟩ :=
          valid other reaches
        have describes : source.Describes other description := ⟨text, stored, parsed⟩
        have fresh : other ∉ chain := fun listed =>
          sound.acyclic other reaches (callers other listed)
        refine .intro callables describes ?_ instantiates accepts
        intro callee member
        have calls : source.Calls other callee := ⟨description, describes, member⟩
        exact induction description fresh describes callee member (callers_append callers calls)
          (reaches.tail calls)
  exact all [] path (by simp) .refl

theorem Makes.sound {callable : Callable} (makes : source.Makes policy path callable) :
    source.Sound policy path where
  valid := by
    classical
    let callables : String → Callable := fun other =>
      if made : ∃ called, source.Makes policy other called then made.choose else callable
    have chosen : ∀ {other called}, source.Makes policy other called →
        callables other = called := by
      intro other called makesOther
      have made : ∃ called, source.Makes policy other called := ⟨called, makesOther⟩
      change dite _ _ _ = _
      rw [dif_pos made]
      exact made.choose_spec.unique makesOther
    refine ⟨callables, ?_⟩
    intro other reaches
    obtain ⟨called, makesOther⟩ := makes.of_reaches reaches
    rw [chosen makesOther]
    cases makesOther with
    | @intro _ description graph _ callees describes inner instantiates accepts =>
        obtain ⟨text, stored, parsed⟩ := describes
        refine ⟨text, description, graph, stored, parsed, ?_, accepts⟩
        rw [← instantiates]
        apply Description.toGraph_congr
        intro callee member
        rw [chosen (inner callee member)]
  acyclic := by
    intro other reaches
    obtain ⟨called, makesOther⟩ := makes.of_reaches reaches
    exact makesOther.not_calls_itself

theorem exists_makes_iff : (∃ callable, source.Makes policy path callable) ↔
    source.Sound policy path :=
  ⟨fun ⟨_, makes⟩ => makes.sound, Sound.makes⟩

end Source

namespace Library

variable {source : Source} {policy : LinkPolicy}

/-- A chain that is reported as recursive leads from the first path back into itself. -/
theorem recursive_of_loadChain {start called : String} {through : List String}
    (chain : List String) (path : String) {library next : Library}
    (trail : source.Trail start chain path)
    (failed : loadChain source policy chain path library =
      .error (.recursive called through) next) :
    source.Trail start through called ∧ called ∈ through := by
  induction chain, path using @Source.chain_induction source generalizing library next with
  | step chain path induction =>
      rw [loadChain_eq] at failed
      split at failed
      · cases failed
      split at failed
      · rename_i repeated
        cases failed
        exact ⟨trail, repeated⟩
      rename_i fresh
      split at failed
      · cases failed
      rename_i text fetched
      split at failed
      · cases failed
      rename_i description parsed
      have describes := Source.describes_of_fetch fetched parsed
      split at failed
      · rename_i stopped
        cases failed
        obtain ⟨callee, member, before, last⟩ := forEach_eq_error stopped
        exact induction description fresh describes callee member
          (trail.extend fresh ⟨description, describes, member⟩) last
      · exact absurd failed enroll_ne_recursive

theorem answer_load_eq_ok_iff (source : Source) (policy : LinkPolicy) (path : String)
    (callable : Callable) :
    answerOf (load source policy path Library.empty) = .ok callable ↔
      source.Makes policy path callable := by
  have faithful := faithful_empty source policy
  constructor
  · intro ok
    obtain ⟨grows, found⟩ := loads_loadChain source policy [] path Library.empty faithful
    exact grows.faithful.makes path callable (found callable ok)
  · intro makes
    exact loadChain_of_makes makes (by simp) faithful

/-- What is loaded into a new library is the path with all that it reaches. -/
theorem get?_load_iff {path : String} {callable : Callable} {library : Library}
    (ok : load source policy path Library.empty = .ok callable library) (other : String) :
    (∃ called, library.get? other = some called) ↔
      Relation.ReflTransGen source.Calls path other := by
  obtain ⟨grows, found⟩ :=
    loads_loadChain source policy [] path Library.empty (faithful_empty source policy)
  unfold load at ok
  rw [ok] at grows found
  constructor
  · rintro ⟨called, cached⟩
    rcases grows.added other called cached with old | reaches
    · cases old
    · exact reaches
  · intro reaches
    induction reaches with
    | refl => exact ⟨callable, found callable rfl⟩
    | tail _ calls induction =>
        obtain ⟨caller, cached⟩ := induction
        exact grows.faithful.closed _ caller _ cached calls

/-- Loading into a new library comes to its end, accepts the sound paths and no others, keeps what
the path reaches and nothing else, and reports as recursive only a chain that runs into itself. -/
theorem load_accepts_sound_paths (source : Source) (policy : LinkPolicy) (path : String) :
    loadFreely source.fetch policy [] path Library.empty =
      some (load source policy path Library.empty) ∧
    ((∃ callable library, load source policy path Library.empty = .ok callable library) ↔
      source.Sound policy path) ∧
    (∀ callable library, load source policy path Library.empty = .ok callable library →
      ∀ other, (∃ called, library.get? other = some called) ↔
        Relation.ReflTransGen source.Calls path other) ∧
    ∀ called chain library,
      load source policy path Library.empty = .error (.recursive called chain) library →
      chain.Nodup ∧ chain.head? = some path ∧ (chain ++ [called]).IsChain source.Calls ∧
        called ∈ chain := by
  refine ⟨loadFreely_eq source policy [] path Library.empty, ?_, ?_, ?_⟩
  · rw [← Source.exists_makes_iff]
    constructor
    · rintro ⟨callable, library, ok⟩
      exact ⟨callable, (answer_load_eq_ok_iff source policy path callable).1 (by rw [ok]; rfl)⟩
    · rintro ⟨callable, makes⟩
      exact ⟨callable, exists_of_answer_eq_ok
        ((answer_load_eq_ok_iff source policy path callable).2 makes)⟩
  · exact fun callable library ok => get?_load_iff ok
  · intro called chain library failed
    obtain ⟨trail, repeated⟩ :=
      recursive_of_loadChain [] path (Source.trail_nil source path) failed
    refine ⟨trail.distinct, ?_, trail.calls, repeated⟩
    have starts := trail.starts
    cases chain with
    | nil => cases repeated
    | cons first rest => exact starts

end Library

end MaterialGraph
