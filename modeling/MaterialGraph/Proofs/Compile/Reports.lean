import MaterialGraph.Compile.Basic
import MaterialGraph.Proofs.Compile.Classification
import Mathlib.Data.List.Forall2

/-!
Error policies. A check that stops at the first faulty node finds the first diagnostic of the whole
check, and where there is none it leaves the same types. So no root compiles under one policy only,
the roots after it share the same parameters under both, and only the reports differ in length.
-/

set_option autoImplicit false

namespace MaterialGraph

namespace Typing

variable {Target : Type} {wired : Wired Target} {order : List NodeId} {table types : TypeTable}

theorem checkAll_stopAtFirst_of_clean (clean : checkAll wired false order table = (types, [])) :
    checkAll wired true order table = (types, []) := by
  induction order generalizing table with
  | nil => exact clean
  | cons id rest induction =>
      unfold checkAll at clean ⊢
      cases checked : check wired table id with
      | ok next =>
          simp only [checked] at clean ⊢
          exact induction clean
      | error fault => simp [checked] at clean

/-- Up to the first faulty node both checks do the same; there the short one ends. -/
theorem checkAll_stopAtFirst_of_faulty {first : Diagnostic} {later : List Diagnostic}
    (faulty : checkAll wired false order table = (types, first :: later)) :
    ∃ reached, checkAll wired true order table = (reached, [first]) := by
  induction order generalizing table with
  | nil => cases faulty
  | cons id rest induction =>
      unfold checkAll at faulty ⊢
      cases checked : check wired table id with
      | ok next =>
          simp only [checked] at faulty ⊢
          exact induction faulty
      | error fault =>
          simp only [checked, Bool.false_eq_true, if_false, Prod.mk.injEq, List.cons.injEq]
            at faulty
          obtain ⟨_, rfl, _⟩ := faulty
          exact ⟨table, rfl⟩

end Typing

/-- What becomes of a root when all its faulty nodes are reported, and what becomes of it when only
the first is: the same, except for the length of that report. -/
inductive CutShort : Except CompileError CompiledRoot → Except CompileError CompiledRoot → Prop
  | compiled (root : CompiledRoot) : CutShort (.ok root) (.ok root)
  | failed {error : CompileError} (otherwise : ∀ diagnostics, error ≠ .validation diagnostics) :
      CutShort (.error error) (.error error)
  | invalid (first : Diagnostic) (later : List Diagnostic) :
      CutShort (.error (.validation (first :: later))) (.error (.validation [first]))

namespace Wired

variable (wired : WiredMaterial)

theorem compileRoot_cutShort (root : NodeId) :
    CutShort (wired.compileRoot .collectAll root) (wired.compileRoot .abortOnFirst root) := by
  unfold compileRoot
  by_cases known : wired.graph.contains root
  · simp only [known, Bool.not_true, Bool.false_eq_true, if_false, decide_true]
    cases wired.schedule [root] with
    | error cycle => exact .failed (by simp)
    | ok schedule =>
        dsimp only
        cases unresolved : wired.unresolvedCall? schedule.order with
        | some error =>
            obtain ⟨_, id, _, _, path, reason, _, _, _, _, rfl⟩ :=
              unresolvedCall?_eq_some_iff.1 unresolved
            exact .failed (by simp)
        | none =>
            simp only [reduceCtorEq, decide_false]
            rcases checked : Typing.checkAll wired false schedule.order []
              with ⟨types, _ | ⟨first, later⟩⟩
            · rw [Typing.checkAll_stopAtFirst_of_clean checked]
              dsimp only
              cases wired.lowerRoot schedule types root with
              | error error => exact .failed (by simp)
              | ok lowered =>
                  dsimp only
                  rcases Parameters.collect lowered.1 [] with ⟨parameters, _ | conflict⟩
                  · exact .compiled _
                  · exact .failed (by simp)
            · obtain ⟨reached, stopped⟩ := Typing.checkAll_stopAtFirst_of_faulty checked
              rw [stopped]
              exact .invalid first later
  · simp only [known, Bool.not_false, if_true]
    exact .failed (by simp)

/-- The roots that succeed are the same, and so are the parameters they share. -/
theorem compileRoots_cutShort (roots : List NodeId) (shared : Parameters) :
    List.Forall₂ (fun whole cut => cut.root = whole.root ∧ CutShort whole.outcome cut.outcome)
      (wired.compileRoots .collectAll shared roots)
      (wired.compileRoots .abortOnFirst shared roots) := by
  induction roots generalizing shared with
  | nil => exact .nil
  | cons root rest induction =>
      unfold compileRoots
      have here := wired.compileRoot_cutShort root
      generalize wired.compileRoot .collectAll root = whole at here
      generalize wired.compileRoot .abortOnFirst root = cut at here
      cases here with
      | compiled compiled =>
          dsimp only
          cases shared.merge compiled.parameters with
          | error conflict => exact .cons ⟨rfl, .failed (by simp)⟩ (induction shared)
          | ok merged => exact .cons ⟨rfl, .compiled compiled⟩ (induction merged)
      | failed otherwise => exact .cons ⟨rfl, .failed otherwise⟩ (induction shared)
      | invalid first later => exact .cons ⟨rfl, .invalid first later⟩ (induction shared)

end Wired

/-- The error policy only shortens reports. Two settings that differ in nothing else fail together
and alike, or they wire the same graph, with the same digest, and for every root either compile it
to the same result, or fail with the same error; except that of the diagnostics that are collected
for a root, only the first is reported when checking stops there. -/
theorem Settings.errorPolicy_only_shortens_reports (settings : Settings) (graph : Material) :
    (∃ error,
      { settings with errorPolicy := .collectAll }.compile graph = .error error ∧
      { settings with errorPolicy := .abortOnFirst }.compile graph = .error error) ∨
    ∃ whole cut,
      { settings with errorPolicy := .collectAll }.compile graph = .ok whole ∧
      { settings with errorPolicy := .abortOnFirst }.compile graph = .ok cut ∧
      cut.wired = whole.wired ∧ cut.digest = whole.digest ∧
      List.Forall₂ (fun whole cut => cut.root = whole.root ∧ CutShort whole.outcome cut.outcome)
        whole.outcomes cut.outcomes := by
  unfold Settings.compile
  cases graph.wire settings.linkPolicy with
  | error fault => exact .inl ⟨.structural fault, rfl, rfl⟩
  | ok wired =>
      exact .inr ⟨_, _, rfl, rfl, rfl, rfl, wired.compileRoots_cutShort graph.roots []⟩

end MaterialGraph
