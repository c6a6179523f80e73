import MaterialGraph.Proofs.Expr.Parameters
import MaterialGraph.Proofs.Lowering.Run

/-!
Why a root does not compile. A root fails for the first of these reasons that applies: it is not in
the graph, what feeds it holds a cycle, an unresolved call or an invalid node, or one of its
uniforms has two types. Nothing else makes it fail; in particular lowering does not.
-/

set_option autoImplicit false

namespace MaterialGraph

namespace Wired

def HasUnresolvedCall (wired : WiredMaterial) (roots : List NodeId) : Prop :=
  ∃ id node, wired.Feeds roots id ∧ wired.node? id = some node ∧ node.kind.isUnresolvedCall = true

def HasInvalidNode (wired : WiredMaterial) (roots : List NodeId) : Prop :=
  ∃ id, wired.Feeds roots id ∧ ¬Typing.Valid wired id

def FirstUnresolved (wired : WiredMaterial) (root id : NodeId) (path reason : String) : Prop :=
  ∃ schedule before after node, wired.schedule [root] = .ok schedule ∧
    schedule.order = before ++ id :: after ∧ wired.node? id = some node ∧
    node.kind = .call (.unresolved path reason) ∧
    ∀ earlier ∈ before, ∀ other, wired.node? earlier = some other →
      other.kind.isUnresolvedCall = false

def LowersTo (wired : WiredMaterial) (policy : ErrorPolicy) (root : NodeId)
    (exprs : ExprList) : Prop :=
  ∃ schedule types results, wired.schedule [root] = .ok schedule ∧
    Typing.checkAll wired (policy = .abortOnFirst) schedule.order [] = (types, []) ∧
    wired.lowerRoot schedule types root = .ok (exprs, results)

variable {wired : WiredMaterial} {policy : ErrorPolicy} {root : NodeId}

theorem LowersTo.unique {left right : ExprList} (first : wired.LowersTo policy root left)
    (second : wired.LowersTo policy root right) : left = right := by
  obtain ⟨_, _, _, scheduled, clean, lowered⟩ := first
  obtain ⟨_, _, _, scheduledToo, cleanToo, loweredToo⟩ := second
  cases scheduled.symm.trans scheduledToo
  cases clean.symm.trans cleanToo
  cases lowered.symm.trans loweredToo
  rfl

theorem LowersTo.exists_and_iff {exprs : ExprList} (lowers : wired.LowersTo policy root exprs)
    {property : ExprList → Prop} :
    (∃ other, wired.LowersTo policy root other ∧ property other) ↔ property exprs :=
  ⟨fun ⟨_, lowersToo, holds⟩ => lowersToo.unique lowers ▸ holds,
    fun holds => ⟨exprs, lowers, holds⟩⟩

theorem unresolvedCall?_eq_some_iff {order : List NodeId} {error : CompileError} :
    wired.unresolvedCall? order = some error ↔
      ∃ before id after node path reason, order = before ++ id :: after ∧
        wired.node? id = some node ∧ node.kind = .call (.unresolved path reason) ∧
        (∀ earlier ∈ before, ∀ other, wired.node? earlier = some other →
          other.kind.isUnresolvedCall = false) ∧
        error = .unresolvedCall id path reason := by
  constructor
  · intro found
    unfold unresolvedCall? at found
    rw [List.findSome?_eq_some_iff] at found
    obtain ⟨before, id, after, split, here, resolved⟩ := found
    have none : wired.unresolvedCall? before = none := List.findSome?_eq_none_iff.2 resolved
    have earlier := unresolvedCall?_eq_none_iff.1 none
    split at here
    · rename_i path reason inputs outputs found
      cases here
      exact ⟨before, id, after, _, path, reason, split, found, rfl, earlier, rfl⟩
    · cases here
  · rintro ⟨before, id, after, node, path, reason, rfl, found, kind, earlier, rfl⟩
    have none := unresolvedCall?_eq_none_iff.2 earlier
    unfold unresolvedCall? at none ⊢
    rw [List.findSome?_append, none]
    obtain ⟨_, _, _, _, _⟩ := node
    cases kind
    simp [found]

theorem FirstUnresolved.unique {left right : NodeId}
    {leftPath leftReason rightPath rightReason : String}
    (first : wired.FirstUnresolved root left leftPath leftReason)
    (second : wired.FirstUnresolved root right rightPath rightReason) :
    left = right ∧ leftPath = rightPath ∧ leftReason = rightReason := by
  obtain ⟨schedule, before, after, node, scheduled, split, found, kind, earlier⟩ := first
  obtain ⟨_, otherBefore, otherAfter, other, scheduledToo, otherSplit, otherFound, otherKind,
    otherEarlier⟩ := second
  cases scheduled.symm.trans scheduledToo
  have atFirst := unresolvedCall?_eq_some_iff.2
    ⟨before, left, after, node, leftPath, leftReason, split, found, kind, earlier, rfl⟩
  have atSecond := unresolvedCall?_eq_some_iff.2
    ⟨otherBefore, right, otherAfter, other, rightPath, rightReason, otherSplit, otherFound,
      otherKind, otherEarlier, rfl⟩
  cases atFirst.symm.trans atSecond
  exact ⟨rfl, rfl, rfl⟩

theorem FirstUnresolved.hasUnresolvedCall {id : NodeId} {path reason : String}
    (first : wired.FirstUnresolved root id path reason) : wired.HasUnresolvedCall [root] := by
  obtain ⟨schedule, before, after, node, scheduled, split, found, kind, _⟩ := first
  have feeds : wired.Feeds [root] id := (mem_order scheduled).1 (by simp [split])
  refine ⟨id, node, feeds, found, ?_⟩
  rw [kind]
  rfl

theorem not_firstUnresolved (resolved : ¬wired.HasUnresolvedCall [root]) (id : NodeId)
    (path reason : String) : ¬wired.FirstUnresolved root id path reason :=
  fun first => resolved first.hasUnresolvedCall

inductive Outcome (wired : WiredMaterial) (policy : ErrorPolicy) (root : NodeId) :
    Except CompileError CompiledRoot → Prop
  | unknown : wired.graph.contains root = false →
      Outcome wired policy root (.error (.unknownRoot root))
  | cycle {cycle : Cycle} : wired.graph.contains root = true → wired.HasCycle [root] →
      Outcome wired policy root (.error (.cycle cycle))
  | unresolved {id : NodeId} {path reason : String} :
      wired.graph.contains root = true → ¬wired.HasCycle [root] →
      wired.FirstUnresolved root id path reason →
      Outcome wired policy root (.error (.unresolvedCall id path reason))
  | invalid {diagnostics : List Diagnostic} :
      wired.graph.contains root = true → ¬wired.HasCycle [root] → ¬wired.HasUnresolvedCall [root] →
      wired.HasInvalidNode [root] → Outcome wired policy root (.error (.validation diagnostics))
  | conflict {exprs : ExprList} {conflict : ParameterConflict} :
      wired.graph.contains root = true → ¬wired.HasCycle [root] → ¬wired.HasUnresolvedCall [root] →
      ¬wired.HasInvalidNode [root] → wired.LowersTo policy root exprs → Expr.Conflicting exprs →
      Outcome wired policy root (.error (.parameter conflict))
  | compiled {compiled : CompiledRoot} :
      wired.graph.contains root = true → ¬wired.HasCycle [root] → ¬wired.HasUnresolvedCall [root] →
      ¬wired.HasInvalidNode [root] → wired.LowersTo policy root compiled.exprs →
      ¬Expr.Conflicting compiled.exprs → Outcome wired policy root (.ok compiled)

theorem outcome_compileRoot (coherent : wired.Coherent) (policy : ErrorPolicy) (root : NodeId) :
    Outcome wired policy root (wired.compileRoot policy root) := by
  unfold compileRoot
  cases known : wired.graph.contains root with
  | false => exact .unknown known
  | true =>
      simp only [Bool.not_true, Bool.false_eq_true, if_false]
      cases scheduled : wired.schedule [root] with
      | error cycle =>
          have cyclic : wired.HasCycle [root] := by
            by_contra acyclic
            obtain ⟨schedule, ok⟩ := (schedule_isOk_iff wired [root]).2 acyclic
            cases scheduled.symm.trans ok
          exact .cycle known cyclic
      | ok schedule =>
          have acyclic := (schedule_isOk_iff wired [root]).1 ⟨schedule, scheduled⟩
          cases calls : wired.unresolvedCall? schedule.order with
          | some error =>
              obtain ⟨before, id, after, node, path, reason, split, found, kind, earlier, rfl⟩ :=
                unresolvedCall?_eq_some_iff.1 calls
              simp only [calls]
              exact .unresolved known acyclic
                ⟨schedule, before, after, node, scheduled, split, found, kind, earlier⟩
          | none =>
              have resolved : ¬wired.HasUnresolvedCall [root] := by
                rintro ⟨id, node, feeds, found, unresolved⟩
                have never := unresolvedCall?_eq_none_iff.1 calls id ((mem_order scheduled).2 feeds)
                  node found
                cases never.symm.trans unresolved
              have passes := coherent.checkAll_eq_nil_iff scheduled (policy = .abortOnFirst)
              rcases faults : Typing.checkAll wired (policy = .abortOnFirst) schedule.order [] with
                ⟨types, diagnostics⟩
              rw [faults] at passes
              cases diagnostics with
              | cons first rest =>
                  have invalid : wired.HasInvalidNode [root] := by
                    by_contra typed
                    simp only [HasInvalidNode, not_exists, not_and, not_not] at typed
                    cases passes.2 typed
                  simp only [calls, faults]
                  exact .invalid known acyclic resolved invalid
              | nil =>
                  have typed : ¬wired.HasInvalidNode [root] := by
                    rintro ⟨id, feeds, invalid⟩
                    exact invalid (passes.1 rfl id feeds)
                  have checked := checked_of_checkAll coherent scheduled calls faults
                  obtain ⟨node, found⟩ := Graph.contains_iff.1 known
                  have member : root ∈ schedule.order := (mem_order scheduled).2
                    ⟨root, List.mem_singleton_self root, known, Relation.ReflTransGen.refl⟩
                  obtain ⟨builder, results, lowered, _, _⟩ := lowerRoot_eq_ok checked member found
                  have lowers : wired.LowersTo policy root builder.exprs :=
                    ⟨schedule, types, results, scheduled, faults, lowered⟩
                  have agreed := Parameters.collect_eq_none_iff builder.exprs
                  rcases collected : Parameters.collect builder.exprs [] with ⟨parameters, conflict⟩
                  rw [collected] at agreed
                  simp only [calls, faults, lowered, collected]
                  cases conflict with
                  | some conflict =>
                      have conflicting : Expr.Conflicting builder.exprs := by
                        by_contra agree
                        cases agreed.2 agree
                      exact .conflict known acyclic resolved typed lowers conflicting
                  | none => exact .compiled known acyclic resolved typed lowers (agreed.1 rfl)

/-- A root of a graph of nodes as authors make them fails for the first reason that applies, and
compiles if none does; lowering is no reason, at whatever depth calls are nested. -/
theorem compileRoot_classification {graph : Material} (built : graph.Built) {links : LinkPolicy}
    {wired : WiredMaterial} (wire : graph.wire links = .ok wired) (policy : ErrorPolicy)
    (root : NodeId) :
    (∀ id, wired.compileRoot policy root = .error (.unknownRoot id) ↔
      id = root ∧ graph.contains root = false) ∧
    ((∃ cycle, wired.compileRoot policy root = .error (.cycle cycle)) ↔
      graph.contains root = true ∧ wired.HasCycle [root]) ∧
    ((∃ id path reason, wired.compileRoot policy root = .error (.unresolvedCall id path reason)) ↔
      graph.contains root = true ∧ ¬wired.HasCycle [root] ∧ wired.HasUnresolvedCall [root]) ∧
    (∀ id path reason,
      wired.compileRoot policy root = .error (.unresolvedCall id path reason) ↔
        graph.contains root = true ∧ ¬wired.HasCycle [root] ∧
          wired.FirstUnresolved root id path reason) ∧
    ((∃ diagnostics, wired.compileRoot policy root = .error (.validation diagnostics)) ↔
      graph.contains root = true ∧ ¬wired.HasCycle [root] ∧ ¬wired.HasUnresolvedCall [root] ∧
        wired.HasInvalidNode [root]) ∧
    ((∃ conflict, wired.compileRoot policy root = .error (.parameter conflict)) ↔
      graph.contains root = true ∧ ¬wired.HasCycle [root] ∧ ¬wired.HasUnresolvedCall [root] ∧
        ¬wired.HasInvalidNode [root] ∧ ∃ exprs, wired.LowersTo policy root exprs ∧
          Expr.Conflicting exprs) ∧
    ((∃ compiled, wired.compileRoot policy root = .ok compiled) ↔
      graph.contains root = true ∧ ¬wired.HasCycle [root] ∧ ¬wired.HasUnresolvedCall [root] ∧
        ¬wired.HasInvalidNode [root] ∧ ∃ exprs, wired.LowersTo policy root exprs ∧
          ¬Expr.Conflicting exprs) ∧
    (∀ fault, wired.compileRoot policy root ≠ .error (.structural fault)) ∧
    (∀ error, wired.compileRoot policy root ≠ .error (.lowering error)) ∧
    ∀ id, wired.compileRoot policy root ≠ .error (.unresolvedOutput id) := by
  have outcome := outcome_compileRoot (coherent_of_wire built wire) policy root
  rw [← (Graph.wires_of_wire wire).contains_eq root]
  generalize wired.compileRoot policy root = result at outcome
  cases outcome with
  | unknown unknown => simp [unknown, eq_comm]
  | cycle known cyclic => simp [known, cyclic]
  | unresolved known acyclic first =>
      have named : ∀ id path reason, wired.FirstUnresolved root id path reason ↔
          _ = id ∧ _ = path ∧ _ = reason :=
        fun _ _ _ => ⟨first.unique, fun ⟨sameId, samePath, sameReason⟩ =>
          sameId ▸ samePath ▸ sameReason ▸ first⟩
      simp [known, acyclic, first.hasUnresolvedCall, named]
  | invalid known acyclic resolved invalid =>
      have none := not_firstUnresolved resolved
      simp [known, acyclic, resolved, invalid, none]
  | conflict known acyclic resolved typed lowers conflicting =>
      have none := not_firstUnresolved resolved
      simp [known, acyclic, resolved, typed, none, lowers.exists_and_iff, conflicting]
  | compiled known acyclic resolved typed lowers agreed =>
      have none := not_firstUnresolved resolved
      simp [known, acyclic, resolved, typed, none, lowers.exists_and_iff, agreed]

/-- A call of a uniform's double is lowered, and nothing speaks against it. -/
theorem compileRoot_classification_caller :
    ∃ digest, (Sample.caller digest).Built ∧
      (Sample.caller digest).wire .strict = .ok (Sample.callerWired digest) ∧
      ¬(Sample.callerWired digest).HasCycle [12] ∧
      ¬(Sample.callerWired digest).HasUnresolvedCall [12] ∧
      ¬(Sample.callerWired digest).HasInvalidNode [12] ∧
      ∃ exprs, (Sample.callerWired digest).LowersTo .collectAll 12 exprs ∧
        ¬Expr.Conflicting exprs := by
  have built := Sample.caller_built Sample.callee_built
  have wire := Sample.caller_wire Sample.calleeDigest
  rcases compileRoot_classification built wire .collectAll 12 with ⟨_, _, _, _, _, _, success, _⟩
  rcases success.1 Sample.caller_compiles with ⟨_, acyclic, resolved, typed, lowers⟩
  exact ⟨_, built, wire, acyclic, resolved, typed, lowers⟩

end Wired

end MaterialGraph
