import MaterialGraph.Compile.Basic
import MaterialGraph.Proofs.Expr.Parameters
import MaterialGraph.Proofs.Lists

/-!
One uniform block for all roots. The parameters of the roots that compile agree with one table:
a root whose parameters conflict with those of earlier roots fails.
-/

set_option autoImplicit false

namespace MaterialGraph

theorem Table.find?_foldl_insert {Key Value : Type} [DecidableEq Key]
    {more : Table Key Value} (distinct : more.keys.Nodup) (table : Table Key Value) (key : Key) :
    (more.foldl (fun table entry => table.insert entry.1 entry.2) table).find? key =
      (more.find? key).or (table.find? key) := by
  induction more generalizing table with
  | nil => rfl
  | cons entry rest induction =>
      obtain ⟨first, value⟩ := entry
      obtain ⟨absent, distinct⟩ := List.nodup_cons.1 distinct
      rw [List.foldl_cons, induction distinct, find?.eq_2]
      split
      · rename_i same
        subst same
        rw [find?_insert_self, find?_eq_none_iff.2 absent]
        rfl
      · rename_i different
        rw [find?_insert_of_ne different]

namespace Parameters

theorem nodup_declare {parameters next : Parameters} {name : String} {type : ValueType} {new : Bool}
    (distinct : parameters.keys.Nodup) (declared : parameters.declare name type = .ok (next, new)) :
    next.keys.Nodup := by
  unfold declare at declared
  split at declared
  · split at declared
    · cases declared
      exact distinct
    · cases declared
  · rename_i absent
    cases declared
    rw [Table.find?_eq_none_iff] at absent
    rw [Table.insert_of_notMem absent, Table.keys, List.map_append, List.nodup_append]
    refine ⟨distinct, List.nodup_singleton _, ?_⟩
    intro old member other new same
    have here : old = name := same.trans (List.mem_singleton.1 new)
    exact absent (here ▸ member)

theorem nodup_collect {exprs : List Expr} {parameters : Parameters}
    (distinct : parameters.keys.Nodup) : (collect exprs parameters).1.keys.Nodup := by
  induction exprs generalizing parameters with
  | nil => exact distinct
  | cons expr rest induction =>
      unfold collect
      split
      · exact induction distinct
      · split
        · rename_i declared
          exact induction (nodup_declare distinct declared)
        · exact distinct

theorem merge_eq_ok {left right merged : Parameters} (distinct : right.keys.Nodup)
    (ok : left.merge right = .ok merged) : left.Within merged ∧ right.Within merged := by
  unfold merge at ok
  split at ok
  · cases ok
  rename_i clean
  cases ok
  have agrees : ∀ name first second, left.find? name = some first → right.find? name = some second →
      first = second := by
    intro name first second atLeft atRight
    have listed : name ∈ right.sortedNames := by
      unfold sortedNames
      rw [List.mem_mergeSort]
      exact List.mem_map_of_mem (Table.mem_of_find? atRight)
    have none := List.findSome?_eq_none_iff.1 clean name listed
    simpa [conflictAt, atLeft, atRight] using none
  constructor
  · intro name type atLeft
    rw [Table.find?_foldl_insert distinct, atLeft]
    cases atRight : right.find? name with
    | none => rfl
    | some second =>
        rw [agrees name type second atLeft atRight]
        rfl
  · intro name type atRight
    rw [Table.find?_foldl_insert distinct, atRight]
    rfl

end Parameters

namespace Wired

theorem compileRoot_eq_ok_iff {wired : WiredMaterial} {policy : ErrorPolicy} {root : NodeId}
    {compiled : CompiledRoot} :
    wired.compileRoot policy root = .ok compiled ↔
      wired.graph.contains root = true ∧ compiled.root = root ∧
        wired.schedule [root] = .ok compiled.schedule ∧
        wired.unresolvedCall? compiled.schedule.order = none ∧
        Typing.checkAll wired (policy = .abortOnFirst) compiled.schedule.order [] =
          (compiled.types, []) ∧
        wired.lowerRoot compiled.schedule compiled.types root =
          .ok (compiled.exprs, compiled.results) ∧
        Parameters.collect compiled.exprs [] = (compiled.parameters, none) := by
  constructor
  · intro ok
    unfold compileRoot at ok
    split at ok
    · cases ok
    rename_i known
    split at ok
    · cases ok
    rename_i scheduled
    split at ok
    · cases ok
    rename_i resolved
    split at ok
    · rename_i clean
      split at ok
      · cases ok
      rename_i lowered
      split at ok
      · cases ok
      rename_i collected
      cases ok
      exact ⟨by simpa using known, rfl, scheduled, resolved, clean, lowered, collected⟩
    · cases ok
  · rintro ⟨known, rfl, scheduled, resolved, clean, lowered, collected⟩
    simp [compileRoot, known, scheduled, resolved, clean, lowered, collected]

theorem declares_of_compileRoot {wired : WiredMaterial} {policy : ErrorPolicy} {root : NodeId}
    {compiled : CompiledRoot} (ok : wired.compileRoot policy root = .ok compiled) :
    compiled.parameters.Declares compiled.exprs ∧ compiled.parameters.keys.Nodup := by
  obtain ⟨_, _, _, _, _, _, collected⟩ := compileRoot_eq_ok_iff.1 ok
  have clean : (Parameters.collect compiled.exprs []).2 = none := by rw [collected]
  have declares := Parameters.declares_collect clean
  have distinct : (Parameters.collect compiled.exprs []).1.keys.Nodup :=
    Parameters.nodup_collect List.nodup_nil
  rw [collected] at declares distinct
  exact ⟨declares, distinct⟩

theorem compileRoot_of_mem {wired : WiredMaterial} {policy : ErrorPolicy} {shared : Parameters}
    {roots : List NodeId} {entry : RootOutcome}
    (member : entry ∈ wired.compileRoots policy shared roots) {compiled : CompiledRoot}
    (ok : entry.outcome = .ok compiled) :
    wired.compileRoot policy entry.root = .ok compiled := by
  induction roots generalizing shared with
  | nil => cases member
  | cons root rest induction =>
      unfold compileRoots at member
      split at member
      · rcases List.mem_cons.1 member with rfl | later
        · cases ok
        · exact induction later
      · rename_i compiledAlone alone
        split at member
        · rcases List.mem_cons.1 member with rfl | later
          · cases ok
          · exact induction later
        · rcases List.mem_cons.1 member with rfl | later
          · cases ok
            exact alone
          · exact induction later

/-- What was shared before, and the parameters of all roots that compile, agree with one table. -/
theorem exists_table (wired : WiredMaterial) (policy : ErrorPolicy) (shared : Parameters)
    (roots : List NodeId) :
    ∃ table : Parameters, shared.Within table ∧
      ∀ entry ∈ wired.compileRoots policy shared roots, ∀ compiled, entry.outcome = .ok compiled →
        table.Serves compiled.exprs := by
  induction roots generalizing shared with
  | nil => exact ⟨shared, .refl shared, fun _ member => absurd member List.not_mem_nil⟩
  | cons root rest induction =>
      have skip : ∀ error, ∃ table : Parameters, shared.Within table ∧
          ∀ entry ∈ ⟨root, .error error⟩ :: wired.compileRoots policy shared rest, ∀ compiled,
            entry.outcome = .ok compiled → table.Serves compiled.exprs := by
        intro error
        obtain ⟨table, within, serves⟩ := induction shared
        refine ⟨table, within, List.forall_mem_cons.2 ⟨?_, serves⟩⟩
        intro compiled ok
        cases ok
      unfold compileRoots
      split
      · exact skip _
      · rename_i compiled ok
        obtain ⟨declares, distinct⟩ := declares_of_compileRoot ok
        split
        · exact skip _
        · rename_i merged mergedOk
          obtain ⟨old, new⟩ := Parameters.merge_eq_ok distinct mergedOk
          obtain ⟨table, within, serves⟩ := induction merged
          refine ⟨table, old.trans within, List.forall_mem_cons.2 ⟨?_, serves⟩⟩
          intro other same
          cases same
          intro expr member name type named
          exact within name type (new name type ((declares name type).2 ⟨expr, member, named⟩))

end Wired

namespace CompiledGraph

theorem compile_eq_ok {settings : Settings} {graph : Material} {compiled : CompiledGraph}
    (ok : settings.compile graph = .ok compiled) :
    ∃ wired, graph.wire settings.linkPolicy = .ok wired ∧
      compiled = ⟨wired, wired.fingerprint graph.roots,
        wired.compileRoots settings.errorPolicy [] graph.roots⟩ := by
  unfold Settings.compile at ok
  split at ok
  · cases ok
  · rename_i wired wire
    cases ok
    exact ⟨wired, wire, rfl⟩

theorem mem_compiledRoots {compiled : CompiledGraph} {root : CompiledRoot}
    (member : root ∈ compiled.compiledRoots) :
    ∃ entry ∈ compiled.outcomes, entry.outcome = .ok root := by
  obtain ⟨entry, listed, outcome⟩ := List.mem_filterMap.1 member
  refine ⟨entry, listed, ?_⟩
  cases result : entry.outcome with
  | error error =>
      rw [result] at outcome
      cases outcome
  | ok compiled =>
      rw [result] at outcome
      exact congrArg Except.ok (Option.some.inj outcome)

theorem compileRoot_of_mem {settings : Settings} {graph : Material} {compiled : CompiledGraph}
    (ok : settings.compile graph = .ok compiled) {root : CompiledRoot}
    (member : root ∈ compiled.compiledRoots) :
    compiled.wired.compileRoot settings.errorPolicy root.root = .ok root := by
  obtain ⟨wired, _, rfl⟩ := compile_eq_ok ok
  obtain ⟨entry, listed, outcome⟩ := mem_compiledRoots member
  have alone := Wired.compileRoot_of_mem listed outcome
  rw [(Wired.compileRoot_eq_ok_iff.1 alone).2.1]
  exact alone

theorem exists_table {settings : Settings} {graph : Material} {compiled : CompiledGraph}
    (ok : settings.compile graph = .ok compiled) :
    ∃ table : Parameters, ∀ root ∈ compiled.compiledRoots, table.Serves root.exprs := by
  obtain ⟨wired, _, rfl⟩ := compile_eq_ok ok
  obtain ⟨table, _, serves⟩ := wired.exists_table settings.errorPolicy [] graph.roots
  refine ⟨table, ?_⟩
  intro root member
  obtain ⟨entry, listed, outcome⟩ := mem_compiledRoots member
  exact serves entry listed root outcome

end CompiledGraph

end MaterialGraph
