import MaterialGraph.Compile.Basic
import MaterialGraph.Proofs.Graph.Cycles
import MaterialGraph.Proofs.Graph.Wiring

/-!
Planning. The plan of a graph orders what feeds any of its roots at once. It agrees with the
schedules of the roots one by one, although other links are counted there: what feeds the roots is
what feeds one of them, and a cycle and what is upstream of it feed the same root.
-/

set_option autoImplicit false

namespace MaterialGraph

namespace Wired

variable {Target : Type} {wired : Wired Target} {roots : List NodeId}

/-- Roots can be scheduled together exactly if each of them can be scheduled alone. -/
theorem schedule_isOk_iff_forall_root :
    (∃ schedule, wired.schedule roots = .ok schedule) ↔
      ∀ root ∈ roots, ∃ schedule, wired.schedule [root] = .ok schedule := by
  simp only [schedule_isOk_iff]
  constructor
  · rintro acyclic root listed ⟨id, feeds, cycle⟩
    exact acyclic ⟨id, feeds_iff_exists_root.2 ⟨root, listed, feeds⟩, cycle⟩
  · rintro acyclic ⟨id, feeds, cycle⟩
    obtain ⟨root, listed, feedsRoot⟩ := feeds_iff_exists_root.1 feeds
    exact acyclic root listed ⟨id, feedsRoot, cycle⟩

theorem contains_of_feeds {root id : NodeId} (feeds : wired.Feeds [root] id) :
    wired.graph.contains root = true := by
  obtain ⟨other, listed, present, _⟩ := feeds
  exact List.mem_singleton.1 listed ▸ present

theorem schedule_isOk_of_not_contains {root : NodeId}
    (absent : ¬wired.graph.contains root = true) :
    ∃ schedule, wired.schedule [root] = .ok schedule := by
  rw [schedule_isOk_iff]
  rintro ⟨_, feeds, _⟩
  exact absent (contains_of_feeds feeds)

/-- A node is reported for the roots exactly if it leads to a cycle of nodes that feed them. -/
theorem exists_mem_unscheduled_iff {id : NodeId} :
    (∃ cycle, wired.schedule roots = .error cycle ∧ id ∈ cycle.unscheduled) ↔
      ∃ member, wired.Feeds roots member ∧ Relation.ReflTransGen wired.Leads id member ∧
        Relation.TransGen wired.Leads member member := by
  constructor
  · rintro ⟨cycle, failed, listed⟩
    exact (mem_unscheduled_iff failed).1 listed
  · rintro ⟨member, feeds, path, loop⟩
    cases outcome : wired.schedule roots with
    | error cycle => exact ⟨cycle, rfl, (mem_unscheduled_iff outcome).2 ⟨member, feeds, path, loop⟩⟩
    | ok schedule =>
        have acyclic := (schedule_isOk_iff wired roots).1 ⟨schedule, outcome⟩
        exact absurd ⟨member, feeds, loop⟩ acyclic

/-- What is reported for roots together is what is reported for one of them alone. -/
theorem mem_unscheduled_iff_exists_root {cycle : Cycle}
    (failed : wired.schedule roots = .error cycle) (id : NodeId) :
    id ∈ cycle.unscheduled ↔ ∃ root ∈ roots, ∃ alone,
      wired.schedule [root] = .error alone ∧ id ∈ alone.unscheduled := by
  simp only [exists_mem_unscheduled_iff]
  rw [mem_unscheduled_iff failed]
  constructor
  · rintro ⟨member, feeds, upstream⟩
    obtain ⟨root, listed, feedsRoot⟩ := feeds_iff_exists_root.1 feeds
    exact ⟨root, listed, member, feedsRoot, upstream⟩
  · rintro ⟨root, listed, member, feeds, upstream⟩
    exact ⟨member, feeds_iff_exists_root.2 ⟨root, listed, feeds⟩, upstream⟩

/-- What is left of the order for all roots when the nodes that do not feed one of them are
deleted. -/
def keptFor (wired : Wired Target) (root : NodeId) (order : List NodeId) : List NodeId :=
  order.filter fun id => wired.Feeds [root] id

variable {planned alone : Schedule} {root : NodeId}

theorem mem_keptFor (plan : wired.schedule roots = .ok planned) (listed : root ∈ roots)
    {id : NodeId} : id ∈ wired.keptFor root planned.order ↔ wired.Feeds [root] id := by
  rw [keptFor, List.mem_filter, decide_eq_true_eq, mem_order plan]
  constructor
  · exact fun kept => kept.2
  · exact fun feeds => ⟨feeds_iff_exists_root.2 ⟨root, listed, feeds⟩, feeds⟩

theorem keptFor_perm (plan : wired.schedule roots = .ok planned) (listed : root ∈ roots)
    (scheduled : wired.schedule [root] = .ok alone) :
    (wired.keptFor root planned.order).Perm alone.order := by
  have distinct : (wired.keptFor root planned.order).Nodup := (nodup_order plan).filter _
  apply (List.perm_ext_iff_of_nodup distinct (nodup_order scheduled)).2
  intro id
  rw [mem_keptFor plan listed, mem_order scheduled]

/-- Every producer of a node that is left is left too, and stands before it. -/
theorem idxOf_keptFor_lt (plan : wired.schedule roots = .ok planned) (listed : root ∈ roots)
    {producer consumer : NodeId} (leads : wired.Leads producer consumer)
    (kept : consumer ∈ wired.keptFor root planned.order) :
    producer ∈ wired.keptFor root planned.order ∧
      (wired.keptFor root planned.order).idxOf producer <
        (wired.keptFor root planned.order).idxOf consumer := by
  have feeds := (mem_keptFor plan listed).1 kept
  have keptProducer := (mem_keptFor plan listed).2 (feeds.of_leads leads)
  have before := idxOf_lt_idxOf_of_leads plan leads
    (feeds_iff_exists_root.2 ⟨root, listed, feeds⟩)
  exact ⟨keptProducer, idxOf_lt_idxOf_of_sublist List.filter_sublist (nodup_order plan)
    keptProducer kept before⟩

end Wired

namespace Settings

variable {settings : Settings} {graph : Material} {wired : WiredMaterial}

theorem plan_eq (wire : graph.wire settings.linkPolicy = .ok wired) :
    settings.plan graph = (wired.schedule graph.roots).mapError CompileError.cycle := by
  unfold plan
  simp only [wire]
  cases wired.schedule graph.roots <;> rfl

theorem plan_eq_ok_iff (wire : graph.wire settings.linkPolicy = .ok wired) {planned : Schedule} :
    settings.plan graph = .ok planned ↔ wired.schedule graph.roots = .ok planned := by
  rw [plan_eq wire]
  cases wired.schedule graph.roots <;> simp [Except.mapError]

theorem plan_eq_error_iff (wire : graph.wire settings.linkPolicy = .ok wired)
    {error : CompileError} : settings.plan graph = .error error ↔
      ∃ cycle, wired.schedule graph.roots = .error cycle ∧ error = .cycle cycle := by
  rw [plan_eq wire]
  cases wired.schedule graph.roots <;> simp [Except.mapError, eq_comm]

/-- The plan of a graph that can be wired agrees with the schedules of its roots. There is a plan
exactly if every root that exists can be scheduled; it lists the nodes of these schedules, and what
is left of it when the nodes that do not feed a root are deleted lists the nodes of the schedule of
that root, each once and producers first. If there is no plan, the nodes reported are those that are
reported for the roots that fail. -/
theorem plan_agrees_with_roots (wire : graph.wire settings.linkPolicy = .ok wired) :
    ((∃ planned, settings.plan graph = .ok planned) ↔
      ∀ root ∈ graph.roots, graph.contains root = true →
        ∃ alone, wired.schedule [root] = .ok alone) ∧
    (∀ planned, settings.plan graph = .ok planned →
      (∀ id, id ∈ planned.order ↔ ∃ root ∈ graph.roots, graph.contains root = true ∧
        ∃ alone, wired.schedule [root] = .ok alone ∧ id ∈ alone.order) ∧
      ∀ root ∈ graph.roots, ∃ alone, wired.schedule [root] = .ok alone ∧
        (wired.keptFor root planned.order).Nodup ∧
        (wired.keptFor root planned.order).Perm alone.order ∧
        ∀ link ∈ wired.accepted, link.endNode ∈ wired.keptFor root planned.order →
          link.startNode ∈ wired.keptFor root planned.order ∧
          (wired.keptFor root planned.order).idxOf link.startNode <
            (wired.keptFor root planned.order).idxOf link.endNode) ∧
    ∀ error, settings.plan graph = .error error →
      ∃ cycle, error = .cycle cycle ∧
        ∀ id, id ∈ cycle.unscheduled ↔ ∃ root ∈ graph.roots, ∃ alone,
          wired.schedule [root] = .error alone ∧ id ∈ alone.unscheduled := by
  have known := (Graph.wires_of_wire wire).contains_eq
  refine ⟨?_, ?_, ?_⟩
  · simp only [plan_eq_ok_iff wire]
    rw [Wired.schedule_isOk_iff_forall_root]
    constructor
    · exact fun every root listed _ => every root listed
    · intro every root listed
      by_cases present : wired.graph.contains root = true
      · exact every root listed (known root ▸ present)
      · exact Wired.schedule_isOk_of_not_contains present
  · intro planned ok
    have plan := (plan_eq_ok_iff wire).1 ok
    have each := Wired.schedule_isOk_iff_forall_root.1 ⟨planned, plan⟩
    refine ⟨?_, ?_⟩
    · intro id
      rw [Wired.mem_order plan, Wired.feeds_iff_exists_root]
      constructor
      · rintro ⟨root, listed, feeds⟩
        obtain ⟨alone, scheduled⟩ := each root listed
        exact ⟨root, listed, known root ▸ Wired.contains_of_feeds feeds, alone, scheduled,
          (Wired.mem_order scheduled).2 feeds⟩
      · rintro ⟨root, listed, _, alone, scheduled, member⟩
        exact ⟨root, listed, (Wired.mem_order scheduled).1 member⟩
    · intro root listed
      obtain ⟨alone, scheduled⟩ := each root listed
      refine ⟨alone, scheduled, (Wired.nodup_order plan).filter _,
        Wired.keptFor_perm plan listed scheduled, ?_⟩
      intro link accepted kept
      exact Wired.idxOf_keptFor_lt plan listed ⟨link, accepted, rfl, rfl⟩ kept
  · intro error failed
    obtain ⟨cycle, failedSchedule, rfl⟩ := (plan_eq_error_iff wire).1 failed
    exact ⟨cycle, rfl, Wired.mem_unscheduled_iff_exists_root failedSchedule⟩

end Settings

/-- The constant is reported, although two of the three roots it feeds do not report it: it leads
to the cycle that the third root is on. -/
theorem Settings.plan_agrees_with_roots_aside :
    Sample.aside.wire Settings.standard.linkPolicy = .ok Sample.asideWired ∧
      ∃ cycle, Settings.standard.plan Sample.aside = .error (.cycle cycle) ∧
        ∀ id, id ∈ cycle.unscheduled ↔ id ∈ [3, 4] ∨ id ∈ [6, 5, 1] := by
  have wire : Sample.aside.wire Settings.standard.linkPolicy = .ok Sample.asideWired := rfl
  have first : Sample.asideWired.schedule [1] = .ok ⟨[[1]], [1]⟩ := by decide +kernel
  have third : Sample.asideWired.schedule [6] = .error ⟨[6, 5, 1]⟩ := by decide +kernel
  have roots : Sample.aside.roots = [1, 2, 6] := rfl
  obtain ⟨succeeds, _, fails⟩ := Settings.plan_agrees_with_roots wire
  rw [roots] at succeeds fails
  cases outcome : Settings.standard.plan Sample.aside with
  | ok planned =>
      obtain ⟨alone, scheduled⟩ := succeeds.1 ⟨planned, outcome⟩ 2 (by decide) rfl
      rw [Sample.aside_unscheduled] at scheduled
      cases scheduled
  | error error =>
      obtain ⟨cycle, rfl, union⟩ := fails error outcome
      refine ⟨wire, cycle, rfl, ?_⟩
      intro id
      rw [union]
      simp [first, Sample.aside_unscheduled, third]

end MaterialGraph
