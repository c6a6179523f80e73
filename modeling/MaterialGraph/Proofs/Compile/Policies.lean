import MaterialGraph.Compile.Basic
import MaterialGraph.Proofs.Graph.Feeding

/-!
Link policies. Wiring strictly stops at the first link that wiring leniently would drop, and up to
there both do the same. Where nothing is dropped the two cannot be told apart, and neither can what
is compiled under them.
-/

set_option autoImplicit false

namespace MaterialGraph

namespace Wired

variable {Target : Type} [CallSite Target] {wired last : Wired Target}

/-- The links that are dropped leniently, and what becomes of the same links strictly. -/
theorem foldlM_strict {links : List Link}
    (ran : links.foldlM (addLinkUnder .lenient) wired = .ok last) :
    ∃ faults, last.dropped = wired.dropped ++ faults ∧
      links.foldlM (addLinkUnder .strict) wired =
        match faults with
        | [] => .ok last
        | fault :: _ => .error fault := by
  induction links generalizing wired with
  | nil =>
      cases ran
      exact ⟨[], (List.append_nil _).symm, rfl⟩
  | cons link rest induction =>
      rw [List.foldlM_cons] at ran ⊢
      cases added : wired.addLink link with
      | ok next =>
          have step : ∀ policy, wired.addLinkUnder policy link = .ok next := by
            intro policy
            simp only [addLinkUnder, added]
          rw [step] at ran ⊢
          rw [← dropped_of_addLink added]
          exact induction ran
      | error fault =>
          -- The lenient run goes on with the fault in its list, the strict one ends here.
          have goesOn : wired.addLinkUnder .lenient link =
              .ok { wired with dropped := wired.dropped ++ [fault] } := by
            simp only [addLinkUnder, added]
          have ends : wired.addLinkUnder .strict link = .error fault := by
            simp only [addLinkUnder, added]
          rw [goesOn] at ran
          rw [ends]
          obtain ⟨faults, dropped, _⟩ := induction ran
          exact ⟨fault :: faults, by rw [dropped, List.append_assoc, List.singleton_append], rfl⟩

end Wired

section Wiring

variable {Target : Type} [CallSite Target] {graph : Graph Target} {wired : Wired Target}

theorem Graph.wire_strict (wire : graph.wire .lenient = .ok wired) :
    graph.wire .strict =
      match wired.dropped with
      | [] => .ok wired
      | fault :: _ => .error fault := by
  obtain ⟨faults, dropped, strict⟩ := Wired.foldlM_strict wire
  have listed : wired.dropped = faults := dropped
  rw [listed]
  exact strict

/-- Wired strictly, a graph fails for the first link that is dropped leniently. -/
theorem Graph.wire_strict_eq_error_iff (wire : graph.wire .lenient = .ok wired)
    {fault : LinkFault} :
    graph.wire .strict = .error fault ↔ wired.dropped.head? = some fault := by
  rw [Graph.wire_strict wire]
  cases wired.dropped <;> simp

theorem Graph.wire_strict_eq_ok_iff (wire : graph.wire .lenient = .ok wired)
    {other : Wired Target} :
    graph.wire .strict = .ok other ↔ wired.dropped = [] ∧ other = wired := by
  rw [Graph.wire_strict wire]
  cases wired.dropped <;> simp [eq_comm]

end Wiring

/-- The link policies agree wherever the strict one succeeds. Every graph can be wired leniently;
wired strictly, it fails exactly if that drops a link, and for the first one that is dropped.
Otherwise nothing is dropped and both make the same wired graph, and the graph compiles under both
policies, the other settings being equal, with the same digest and the same outcome for every
root. -/
theorem Settings.strict_agrees_with_lenient (settings : Settings) (graph : Material) :
    ∃ wired, graph.wire .lenient = .ok wired ∧
      ((∃ fault, graph.wire .strict = .error fault) ↔ wired.dropped ≠ []) ∧
      (∀ fault, graph.wire .strict = .error fault → wired.dropped.head? = some fault) ∧
      ∀ other, graph.wire .strict = .ok other →
        other = wired ∧ other.dropped = [] ∧
        ∃ compiled,
          { settings with linkPolicy := .strict }.compile graph = .ok compiled ∧
          { settings with linkPolicy := .lenient }.compile graph = .ok compiled := by
  obtain ⟨wired, wire, _⟩ := graph.wire_lenient
  refine ⟨wired, wire, ?_, fun fault => (Graph.wire_strict_eq_error_iff wire).1, ?_⟩
  · simp only [Graph.wire_strict_eq_error_iff wire]
    cases wired.dropped <;> simp
  · intro other strict
    obtain ⟨clean, rfl⟩ := (Graph.wire_strict_eq_ok_iff wire).1 strict
    have compiles : ∀ policy, graph.wire policy = .ok other →
        { settings with linkPolicy := policy }.compile graph =
          .ok ⟨other, other.fingerprint graph.roots,
            other.compileRoots settings.errorPolicy [] graph.roots⟩ := by
      intro policy made
      unfold Settings.compile
      simp only [made]
    exact ⟨rfl, clean, _, compiles .strict strict, compiles .lenient wire⟩

end MaterialGraph
