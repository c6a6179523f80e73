import MaterialGraph.Proofs.Compile.Parameters
import MaterialGraph.Proofs.Texts

/-!
Conflicts between roots. The table that roots share holds exactly the parameters of the earlier
roots that compiled, so that a root is refused exactly if one of them gives a name another type.
Of several such names the first in the order of their bytes is reported.
-/

set_option autoImplicit false

namespace MaterialGraph

namespace Parameters

variable {left right : Parameters}

def Clash (left right : Parameters) (conflict : ParameterConflict) : Prop :=
  left.find? conflict.name = some conflict.first ∧
    right.find? conflict.name = some conflict.second ∧ conflict.first ≠ conflict.second

theorem conflictAt_eq_some_iff {name : String} {conflict : ParameterConflict} :
    conflictAt left right name = some conflict ↔
      conflict.name = name ∧ Clash left right conflict := by
  obtain ⟨other, first, second⟩ := conflict
  unfold conflictAt Clash
  constructor
  · intro found
    split at found
    · rename_i atLeft atRight
      split at found
      · cases found
      · rename_i different
        cases found
        exact ⟨rfl, atLeft, atRight, different⟩
    · cases found
  · rintro ⟨rfl, atLeft, atRight, different⟩
    simp only at atLeft atRight different
    simp [atLeft, atRight, different]

theorem mem_sortedNames {name : String} {type : ValueType}
    (found : right.find? name = some type) : name ∈ right.sortedNames := by
  unfold sortedNames
  rw [List.mem_mergeSort]
  exact List.mem_map_of_mem (Table.mem_of_find? found)

theorem pairwise_sortedNames (parameters : Parameters) :
    parameters.sortedNames.Pairwise fun first second => ¬second < first := by
  have sorted : parameters.sortedNames.Pairwise fun first second => textLe first second = true := by
    apply List.pairwise_mergeSort
    · intro first second third early late
      simp only [textLe, Bool.not_eq_true', decide_eq_false_iff_not, not_lt] at early late ⊢
      exact le_trans early late
    · intro first second
      simp only [textLe, Bool.or_eq_true, Bool.not_eq_true', decide_eq_false_iff_not, not_lt]
      exact le_total first second
  exact sorted.imp fun ordered => by simpa [textLe] using ordered

/-- A refused table clashes, and the clash that is reported has the least name. -/
theorem merge_eq_error {conflict : ParameterConflict}
    (refused : left.merge right = .error conflict) :
    Clash left right conflict ∧
      ∀ other, Clash left right other → ¬bytesOf other.name < bytesOf conflict.name := by
  unfold merge at refused
  split at refused
  · rename_i found
    cases refused
    obtain ⟨before, name, after, names, here, clean⟩ := List.findSome?_eq_some_iff.1 found
    obtain ⟨rfl, clash⟩ := conflictAt_eq_some_iff.1 here
    refine ⟨clash, ?_⟩
    intro other otherClash below
    have listed := mem_sortedNames otherClash.2.1
    have sorted := right.pairwise_sortedNames
    rw [names] at listed sorted
    rcases List.mem_append.1 listed with early | late
    · have none := clean other.name early
      rw [conflictAt_eq_some_iff.2 ⟨rfl, otherClash⟩] at none
      cases none
    · rw [bytesOf_lt_iff] at below
      rcases List.mem_cons.1 late with same | behind
      · exact absurd (same ▸ below) (lt_irrefl _)
      · exact List.rel_of_pairwise_cons (List.pairwise_append.1 sorted).2.1 behind below
  · cases refused

theorem not_clash_of_merge {merged : Parameters} (distinct : right.keys.Nodup)
    (ok : left.merge right = .ok merged) : ¬∃ conflict, Clash left right conflict := by
  rintro ⟨conflict, atLeft, atRight, different⟩
  obtain ⟨old, new⟩ := merge_eq_ok distinct ok
  have same := (old _ _ atLeft).symm.trans (new _ _ atRight)
  exact different (Option.some.inj same)

theorem find?_merge {merged : Parameters} (distinct : right.keys.Nodup)
    (ok : left.merge right = .ok merged) (name : String) (type : ValueType) :
    merged.find? name = some type ↔ left.find? name = some type ∨ right.find? name = some type := by
  obtain ⟨old, new⟩ := merge_eq_ok distinct ok
  constructor
  · intro found
    unfold merge at ok
    split at ok
    · cases ok
    · cases ok
      rw [Table.find?_foldl_insert distinct, Option.or_eq_some_iff] at found
      exact found.symm.imp And.right id
  · rintro (atLeft | atRight)
    · exact old name type atLeft
    · exact new name type atRight

end Parameters

namespace RootOutcome

def Gives (entries : List RootOutcome) (name : String) (type : ValueType) : Prop :=
  ∃ entry ∈ entries, ∃ compiled, entry.outcome = .ok compiled ∧
    compiled.parameters.find? name = some type

/-- A root gives a name another type than an earlier one that compiled. -/
def Clash (earlier : List RootOutcome) (compiled : CompiledRoot) (conflict : ParameterConflict) :
    Prop :=
  Gives earlier conflict.name conflict.first ∧
    compiled.parameters.find? conflict.name = some conflict.second ∧
    conflict.first ≠ conflict.second

/-- What becomes of a root that compiles alone: it is refused exactly if it clashes with an earlier
one, because of the least name at which it does. -/
structure Judged (earlier : List RootOutcome) (compiled : CompiledRoot)
    (outcome : Except CompileError CompiledRoot) : Prop where
  refused_iff : (∃ conflict, outcome = .error (.parameter conflict)) ↔
    ∃ conflict, Clash earlier compiled conflict
  reported : ∀ conflict, outcome = .error (.parameter conflict) →
    Clash earlier compiled conflict ∧
      ∀ other, Clash earlier compiled other → ¬bytesOf other.name < bytesOf conflict.name
  kept : (¬∃ conflict, Clash earlier compiled conflict) → outcome = .ok compiled

def Collected (entries : List RootOutcome) (shared : Parameters) : Prop :=
  ∀ name type, shared.find? name = some type ↔ Gives entries name type

theorem collected_nil : Collected [] [] := by
  intro name type
  simp [Gives]

variable {earlier : List RootOutcome} {shared : Parameters}

theorem Collected.clash_iff (collected : Collected earlier shared) {compiled : CompiledRoot}
    {conflict : ParameterConflict} :
    shared.Clash compiled.parameters conflict ↔ Clash earlier compiled conflict := by
  rw [Parameters.Clash, Clash, collected]

theorem Collected.failed (collected : Collected earlier shared) (root : NodeId)
    (error : CompileError) : Collected (earlier ++ [⟨root, .error error⟩]) shared := by
  intro name type
  rw [collected]
  simp [Gives, or_and_right, exists_or]

theorem Collected.merged (collected : Collected earlier shared) (root : NodeId)
    {compiled : CompiledRoot} (distinct : compiled.parameters.keys.Nodup) {merged : Parameters}
    (ok : shared.merge compiled.parameters = .ok merged) :
    Collected (earlier ++ [⟨root, .ok compiled⟩]) merged := by
  intro name type
  rw [Parameters.find?_merge distinct ok, collected]
  simp [Gives, or_and_right, exists_or]

theorem judged_refused (collected : Collected earlier shared) {compiled : CompiledRoot}
    {conflict : ParameterConflict} (refused : shared.merge compiled.parameters = .error conflict) :
    Judged earlier compiled (.error (.parameter conflict)) := by
  obtain ⟨clash, least⟩ := Parameters.merge_eq_error refused
  rw [collected.clash_iff] at clash
  refine ⟨⟨fun _ => ⟨conflict, clash⟩, fun _ => ⟨conflict, rfl⟩⟩, ?_, ?_⟩
  · intro other same
    cases same
    exact ⟨clash, fun name clashes => least name (collected.clash_iff.2 clashes)⟩
  · exact fun clean => absurd ⟨conflict, clash⟩ clean

theorem judged_kept (collected : Collected earlier shared) {compiled : CompiledRoot}
    (distinct : compiled.parameters.keys.Nodup) {merged : Parameters}
    (ok : shared.merge compiled.parameters = .ok merged) :
    Judged earlier compiled (.ok compiled) := by
  have clean := Parameters.not_clash_of_merge distinct ok
  simp only [collected.clash_iff] at clean
  refine ⟨⟨?_, fun clashes => absurd clashes clean⟩, ?_, fun _ => rfl⟩
  · rintro ⟨conflict, refused⟩
    cases refused
  · intro conflict refused
    cases refused

end RootOutcome

namespace Wired

open RootOutcome

variable {earlier : List RootOutcome} {shared : Parameters}

theorem compileRoots_cons (wired : WiredMaterial) (policy : ErrorPolicy)
    (collected : Collected earlier shared) (root : NodeId) (rest : List NodeId) :
    ∃ outcome next, wired.compileRoots policy shared (root :: rest) =
        ⟨root, outcome⟩ :: wired.compileRoots policy next rest ∧
      Collected (earlier ++ [⟨root, outcome⟩]) next ∧
      (∀ error, wired.compileRoot policy root = .error error → outcome = .error error) ∧
      ∀ compiled, wired.compileRoot policy root = .ok compiled →
        Judged earlier compiled outcome := by
  rw [compileRoots]
  cases alone : wired.compileRoot policy root with
  | error error =>
      refine ⟨.error error, shared, rfl, collected.failed root error, ?_, ?_⟩
      · intro other same
        cases same
        rfl
      · intro compiled impossible
        cases impossible
  | ok compiled =>
      obtain ⟨_, distinct⟩ := declares_of_compileRoot alone
      cases merge : shared.merge compiled.parameters with
      | error conflict =>
          refine ⟨.error (.parameter conflict), shared, by simp only [merge],
            collected.failed root _, ?_, ?_⟩
          · intro error impossible
            cases impossible
          · intro other same
            cases same
            exact judged_refused collected merge
      | ok merged =>
          refine ⟨.ok compiled, merged, by simp only [merge],
            collected.merged root distinct merge, ?_, ?_⟩
          · intro error impossible
            cases impossible
          · intro other same
            cases same
            exact judged_kept collected distinct merge

/-- Every root is judged by those before it. -/
theorem compileRoots_run {wired : WiredMaterial} {policy : ErrorPolicy}
    (collected : Collected earlier shared) {roots : List NodeId} {before after : List RootOutcome}
    {entry : RootOutcome}
    (split : wired.compileRoots policy shared roots = before ++ entry :: after) :
    (∀ error, wired.compileRoot policy entry.root = .error error →
      entry.outcome = .error error) ∧
    ∀ compiled, wired.compileRoot policy entry.root = .ok compiled →
      Judged (earlier ++ before) compiled entry.outcome := by
  induction roots generalizing earlier shared before with
  | nil => simp [compileRoots] at split
  | cons root rest induction =>
      obtain ⟨outcome, next, step, collectedNext, fails, judged⟩ :=
        wired.compileRoots_cons policy collected root rest
      rw [step] at split
      cases before with
      | nil =>
          cases split
          rw [List.append_nil]
          exact ⟨fails, judged⟩
      | cons first before =>
          rw [List.cons_append, List.cons.injEq] at split
          obtain ⟨rfl, split⟩ := split
          have later := induction collectedNext split
          rwa [List.append_assoc] at later

end Wired

namespace CompiledGraph

theorem parameters_agree {settings : Settings} {graph : Material} {compiled : CompiledGraph}
    (ok : settings.compile graph = .ok compiled) {left right : CompiledRoot}
    (leftMember : left ∈ compiled.compiledRoots) (rightMember : right ∈ compiled.compiledRoots)
    {name : String} {first second : ValueType}
    (atLeft : left.parameters.find? name = some first)
    (atRight : right.parameters.find? name = some second) : first = second := by
  obtain ⟨table, serves⟩ := exists_table ok
  have listed : ∀ root ∈ compiled.compiledRoots, ∀ type,
      root.parameters.find? name = some type → table.find? name = some type := by
    intro root member type found
    obtain ⟨declares, _⟩ := Wired.declares_of_compileRoot (compileRoot_of_mem ok member)
    obtain ⟨expr, exprMember, named⟩ := (declares name type).1 found
    exact serves root member expr exprMember name type named
  have same :=
    (listed left leftMember first atLeft).symm.trans (listed right rightMember second atRight)
  exact Option.some.inj same

end CompiledGraph

end MaterialGraph
