import MaterialGraph.Proofs.Compile.Conflicts
import MaterialGraph.Proofs.Shader.CacheKey

/-!
Assembly of what was compiled. The roots that compile agree on their parameters, so that assembly
always succeeds, with one function for each of them, and distinct roots get distinct names.
-/

set_option autoImplicit false

namespace MaterialGraph

namespace Shader

theorem functionName_inj {stem other : String} (plain : '_' ∉ stem.toList)
    (plainToo : '_' ∉ other.toList) {left right : NodeId}
    (same : functionName stem left = functionName other right) : left = right := by
  have letters := congrArg String.toList same
  simp only [functionName, String.toList_append, List.append_assoc] at letters
  obtain ⟨_, numbers⟩ := append_mark_inj plain plainToo letters
  exact UInt32.toNat_inj.1 (toString_nat_inj (String.toList_inj.1 numbers))

theorem exists_stem (wired : WiredMaterial) (compiled : CompiledRoot) :
    ∃ stem : String, '_' ∉ stem.toList ∧
      rootName wired compiled = functionName stem compiled.root := by
  unfold rootName
  split
  · rename_i block _
    refine ⟨functionStem block, ?_, rfl⟩
    cases block <;> decide
  · exact ⟨"preview", by decide, rfl⟩

theorem rootName_inj {wired : WiredMaterial} {left right : CompiledRoot}
    (same : rootName wired left = rootName wired right) : left.root = right.root := by
  obtain ⟨stem, plain, named⟩ := exists_stem wired left
  obtain ⟨other, plainToo, namedToo⟩ := exists_stem wired right
  rw [named, namedToo] at same
  exact functionName_inj plain plainToo same

end Shader

namespace CompiledGraph

variable {settings : Settings} {graph : Material} {compiled : CompiledGraph}

theorem map_root_outcomes (ok : settings.compile graph = .ok compiled) :
    compiled.outcomes.map RootOutcome.root = graph.roots := by
  obtain ⟨wired, _, rfl⟩ := compile_eq_ok ok
  exact wired.map_root_compileRoots settings.errorPolicy [] graph.roots

theorem sublist_roots (ok : settings.compile graph = .ok compiled) :
    (compiled.compiledRoots.map CompiledRoot.root).Sublist graph.roots := by
  have named : ∀ entry ∈ compiled.outcomes, ∀ root, entry.outcome = .ok root →
      root.root = entry.root := by
    intro entry member root outcome
    obtain ⟨wired, _, rfl⟩ := compile_eq_ok ok
    exact (Wired.compileRoot_eq_ok_iff.1 (Wired.compileRoot_of_mem member outcome)).2.1
  rw [← map_root_outcomes ok]
  unfold compiledRoots
  generalize compiled.outcomes = entries at named
  induction entries with
  | nil => exact .slnil
  | cons entry rest induction =>
      rw [List.forall_mem_cons] at named
      cases outcome : entry.outcome with
      | error error =>
          rw [List.filterMap_cons_none (by rw [outcome]; rfl), List.map_cons]
          exact (induction named.2).cons _
      | ok root =>
          rw [List.filterMap_cons_some (by rw [outcome]; rfl), List.map_cons, List.map_cons,
            named.1 root outcome]
          exact (induction named.2).cons_cons _

theorem nodup_rootNames (ok : settings.compile graph = .ok compiled)
    (distinct : graph.roots.Nodup) :
    (compiled.compiledRoots.map (Shader.rootName compiled.wired)).Nodup := by
  have roots := (sublist_roots ok).nodup distinct
  unfold List.Nodup at roots ⊢
  rw [List.pairwise_map] at roots ⊢
  refine roots.imp ?_
  intro left right different same
  exact different (Shader.rootName_inj same)

/-- A root that compiles alone is refused exactly if an earlier one that compiled gives one of its
parameters another type, and the least such name is reported; the others agree on all parameters
and are assembled, each into one function of its own name. -/
theorem parameters_consistent (ok : settings.compile graph = .ok compiled)
    (distinct : graph.roots.Nodup) :
    compiled.outcomes.map RootOutcome.root = graph.roots ∧
    (∀ before entry after, compiled.outcomes = before ++ entry :: after →
      (∀ error, compiled.wired.compileRoot settings.errorPolicy entry.root = .error error →
        entry.outcome = .error error) ∧
      ∀ alone, compiled.wired.compileRoot settings.errorPolicy entry.root = .ok alone →
        RootOutcome.Judged before alone entry.outcome) ∧
    (∀ left ∈ compiled.compiledRoots, ∀ right ∈ compiled.compiledRoots, ∀ name first second,
      left.parameters.find? name = some first → right.parameters.find? name = some second →
        first = second) ∧
    ∀ target : TargetSettings, ∃ functions module,
      Shader.emitFunctions target compiled = .ok (functions, module) ∧
      Shader.ofCompiled target compiled =
        .ok ⟨Shader.moduleText target compiled functions module,
          functions.map Shader.Function.name⟩ ∧
      functions.map Shader.Function.name =
        compiled.compiledRoots.map (Shader.rootName compiled.wired) ∧
      (functions.map Shader.Function.name).Nodup := by
  refine ⟨map_root_outcomes ok, ?_, ?_, ?_⟩
  · intro before entry after split
    obtain ⟨wired, _, rfl⟩ := compile_eq_ok ok
    exact Wired.compileRoots_run RootOutcome.collected_nil split
  · intro left leftMember right rightMember name first second atLeft atRight
    exact parameters_agree ok leftMember rightMember atLeft atRight
  · intro target
    obtain ⟨functions, module, emitted, written⟩ := Shader.emitFunctions_run ok target
    have names : functions.map Shader.Function.name =
        compiled.compiledRoots.map (Shader.rootName compiled.wired) := by
      rw [map_eq_map_iff_forall₂]
      exact List.Forall₂.imp (fun _ _ writes => writes.name) written.flip
    refine ⟨functions, module, emitted, ?_, names, ?_⟩
    · unfold Shader.ofCompiled
      rw [emitted]
    · rw [names]
      exact nodup_rootNames ok distinct

/-- Of two constants of different types under one name, the second is refused. -/
theorem parameters_consistent_gains :
    ∃ before entry after alone,
      (Sample.gainsCompiled [1, 2]).outcomes = before ++ entry :: after ∧
      (Sample.gainsWired [1, 2]).compileRoot .collectAll entry.root = .ok alone ∧
      entry.outcome = .error (.parameter ⟨"gain", .scalar, .vec3⟩) ∧
      RootOutcome.Clash before alone ⟨"gain", .scalar, .vec3⟩ := by
  have ok : Settings.standard.compile (Sample.gains [1, 2]) =
      .ok (Sample.gainsCompiled [1, 2]) := rfl
  -- The digest plays no part, and is not computed.
  have failed : failures ⟨Sample.gainsWired [1, 2], default,
      (Sample.gainsWired [1, 2]).compileRoots .collectAll [] [1, 2]⟩ =
        [(2, .parameter ⟨"gain", .scalar, .vec3⟩)] := by decide +kernel
  have compiles : ∀ root : NodeId, root = 2 →
      ((Sample.gainsWired [1, 2]).compileRoot .collectAll root).isOk = true := by
    rintro _ rfl
    decide +kernel
  obtain ⟨_, judged, _⟩ := parameters_consistent ok (by decide)
  obtain ⟨entry, member, reason⟩ := List.mem_filterMap.1 (failed ▸ List.mem_singleton_self _)
  obtain ⟨before, after, split⟩ := List.append_of_mem member
  cases outcome : entry.outcome with
  | ok root =>
      rw [outcome] at reason
      cases reason
  | error error =>
      rw [outcome] at reason
      obtain ⟨isSecond, rfl⟩ := Prod.mk.inj (Option.some.inj reason)
      have succeeds := compiles entry.root isSecond
      cases alone : (Sample.gainsWired [1, 2]).compileRoot .collectAll entry.root with
      | error error =>
          rw [alone] at succeeds
          cases succeeds
      | ok root =>
          have clash := ((judged before entry after split).2 root alone).reported _ outcome
          exact ⟨before, entry, after, root, split, alone, outcome, clash.1⟩

end CompiledGraph

end MaterialGraph
