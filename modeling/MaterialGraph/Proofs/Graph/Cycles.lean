import MaterialGraph.Proofs.Graph.Discovery
import MaterialGraph.Proofs.Graph.Levels

/-!
What a cycle holds back. When there is no schedule, the nodes reported are those that cannot be
peeled off: the nodes on cycles among the nodes that feed the roots, and the nodes upstream of such
cycles, in the order of discovery. A cycle that does not feed the roots holds nothing back.
-/

set_option autoImplicit false

namespace MaterialGraph

namespace Wired

variable {Target : Type}

theorem Degrees.map_filter_pos {degrees : Degrees} (distinct : (degrees.map Prod.fst).Nodup) :
    (degrees.filter fun entry => 0 < entry.2).map Prod.fst =
      (degrees.map Prod.fst).filter fun id => 0 < degrees.left id := by
  rw [List.filter_map]
  congr 1
  apply List.filter_congr
  rintro ⟨id, degree⟩ listed
  have found := Table.find?_of_mem distinct listed
  simp [Degrees.left, found]

variable {wired : Wired Target} {roots : List NodeId} {id : NodeId}

/-- What is reported is what was reached and not peeled off. -/
theorem unscheduled_eq {cycle : Cycle} (failed : wired.schedule roots = .error cycle) :
    (wired.peeled roots).1.flatten.length < (wired.reachable roots).length ∧
      cycle.unscheduled =
        (wired.reachable roots).filter fun id => id ∉ (wired.peeled roots).1.flatten := by
  rw [schedule_eq] at failed
  split at failed
  · rename_i short
    cases failed
    have peeling := peeling_peeled wired roots
    refine ⟨short, ?_⟩
    rw [Degrees.map_filter_pos (peeling.keys ▸ nodup_reachable wired roots), peeling.keys]
    apply List.filter_congr
    intro id reached
    have free := peeling.free id reached
    rw [List.append_nil] at free
    rw [decide_eq_decide, free, Nat.pos_iff_ne_zero]
  · cases failed

/-- What leads to a cycle of nodes that feed the roots is not peeled off: on the way the levels
would descend, and around the cycle without end. -/
theorem not_inLevel_of_cycle {member : NodeId} (path : Relation.ReflTransGen wired.Leads id member)
    (feeds : wired.Feeds roots member) (cycle : Relation.TransGen wired.Leads member member)
    (number : Nat) : ¬InLevel (wired.peeled roots).1 number id := by
  intro leveled
  obtain ⟨_, _, onCycle⟩ :=
    exists_lt_inLevel_of_path (Relation.TransGen.trans_right path cycle) feeds leveled
  obtain ⟨_, lower, again⟩ := exists_lt_inLevel_of_path cycle feeds onCycle
  exact Nat.ne_of_lt lower (again.eq (nodup_peeled wired roots) onCycle)

/-- What is reported is what leads to a cycle of nodes that feed the roots. -/
theorem mem_unscheduled_iff {cycle : Cycle} (failed : wired.schedule roots = .error cycle) :
    id ∈ cycle.unscheduled ↔ ∃ member, wired.Feeds roots member ∧
      Relation.ReflTransGen wired.Leads id member ∧
      Relation.TransGen wired.Leads member member := by
  rw [(unscheduled_eq failed).2, List.mem_filter, decide_eq_true_eq, ← exists_inLevel_iff]
  constructor
  · rintro ⟨reached, waiting⟩
    rw [exists_inLevel_iff] at waiting
    exact exists_cycle_of_not_emitted reached waiting
  · rintro ⟨member, feeds, path, loop⟩
    refine ⟨mem_reachable.2 (feeds.of_path path), ?_⟩
    rintro ⟨number, leveled⟩
    exact not_inLevel_of_cycle path feeds loop number leveled

/-- The cycle diagnostic is exact. It lists, without repetition and in the order of discovery, the
nodes that feed the roots and from which a directed cycle of nodes that feed the roots can be
reached along accepted links, and no other node; there is at least one. -/
theorem unscheduled_exact {cycle : Cycle} (failed : wired.schedule roots = .error cycle) :
    cycle.unscheduled ≠ [] ∧
    cycle.unscheduled.Nodup ∧
    (∃ order, wired.DiscoveryOrder roots order ∧ cycle.unscheduled.Sublist order) ∧
    ∀ id, id ∈ cycle.unscheduled ↔ wired.Feeds roots id ∧
      ∃ member, wired.Feeds roots member ∧ Relation.ReflTransGen wired.Leads id member ∧
        Relation.TransGen wired.Leads member member := by
  obtain ⟨short, listed⟩ := unscheduled_eq failed
  have sublist : cycle.unscheduled.Sublist (wired.reachable roots) := by
    rw [listed]
    exact List.filter_sublist
  refine ⟨?_, sublist.nodup (nodup_reachable wired roots),
    ⟨_, discoveryOrder_reachable wired roots, sublist⟩, ?_⟩
  · obtain ⟨stuck, reached, waiting⟩ := exists_not_emitted short
    rw [listed]
    exact List.ne_nil_of_mem (List.mem_filter.2 ⟨reached, decide_eq_true waiting⟩)
  · intro id
    rw [mem_unscheduled_iff failed]
    constructor
    · rintro ⟨member, feeds, path, loop⟩
      exact ⟨feeds.of_path path, member, feeds, path, loop⟩
    · exact fun upstream => upstream.2

end Wired

namespace Sample

/-- A sum of a constant and one of two nodes that feed each other. The constant also feeds another
such pair, aside from what feeds the sum. -/
def aside : Material :=
  (((Graph.empty "Aside").insertRoot (.ofKind 1 (.constant (.scalar .one) none)))
    |>.insertRoot (.ofKind 2 (.math .add))
    |>.insert (.ofKind 3 (.math .sin))
    |>.insert (.ofKind 4 (.math .cos))
    |>.insert (.ofKind 5 (.math .add)))
    |>.insertRoot (.ofKind 6 (.math .abs))
    |>.connect ⟨1, 0, 2, 0⟩
    |>.connect ⟨3, 0, 2, 1⟩
    |>.connect ⟨4, 0, 3, 0⟩
    |>.connect ⟨3, 0, 4, 0⟩
    |>.connect ⟨1, 0, 5, 0⟩
    |>.connect ⟨6, 0, 5, 1⟩
    |>.connect ⟨5, 0, 6, 0⟩

def asideWired : WiredMaterial :=
  match aside.wire .lenient with
  | .ok wired => wired
  | .error _ => .bare aside

theorem aside_wire : aside.wire .lenient = .ok asideWired := rfl

theorem aside_unscheduled : asideWired.schedule [2] = .error ⟨[3, 4]⟩ := by decide +kernel

theorem aside_leads (link : Link) (accepted : link ∈ aside.links) :
    asideWired.Leads link.startNode link.endNode := by
  have all : asideWired.accepted = aside.links := rfl
  exact ⟨link, all ▸ accepted, rfl, rfl⟩

theorem aside_feeds : asideWired.Feeds [2] 1 :=
  ⟨2, List.mem_singleton.2 rfl, rfl, .single (aside_leads ⟨1, 0, 2, 0⟩ (by decide))⟩

end Sample

/-- The constant is scheduled: no cycle that feeds the sum can be reached from it. -/
theorem Wired.unscheduled_exact_aside :
    Sample.asideWired.schedule [2] = .error ⟨[3, 4]⟩ ∧ Sample.asideWired.Feeds [2] 1 ∧
      ¬∃ member, Sample.asideWired.Feeds [2] member ∧
        Relation.ReflTransGen Sample.asideWired.Leads 1 member ∧
        Relation.TransGen Sample.asideWired.Leads member member := by
  obtain ⟨_, _, _, listing⟩ := Wired.unscheduled_exact Sample.aside_unscheduled
  refine ⟨Sample.aside_unscheduled, Sample.aside_feeds, ?_⟩
  intro upstream
  have listed := (listing 1).2 ⟨Sample.aside_feeds, upstream⟩
  revert listed
  decide

/-- Without the condition that the cycle feeds the roots, the diagnostic is not exact: the constant
feeds the sum, and the cycle aside can be reached from it. -/
theorem Wired.unscheduled_not_all_upstream :
    Sample.aside.wire .lenient = .ok Sample.asideWired ∧
      ∃ cycle, Sample.asideWired.schedule [2] = .error cycle ∧
        ¬∀ id, id ∈ cycle.unscheduled ↔ Sample.asideWired.Feeds [2] id ∧
          ∃ member, Relation.ReflTransGen Sample.asideWired.Leads id member ∧
            Relation.TransGen Sample.asideWired.Leads member member := by
  refine ⟨Sample.aside_wire, _, Sample.aside_unscheduled, ?_⟩
  intro listing
  have leads := Sample.aside_leads ⟨1, 0, 5, 0⟩ (by decide)
  have forth := Sample.aside_leads ⟨5, 0, 6, 0⟩ (by decide)
  have back := Sample.aside_leads ⟨6, 0, 5, 1⟩ (by decide)
  have listed := (listing 1).2 ⟨Sample.aside_feeds, 5, .single leads, .head forth (.single back)⟩
  revert listed
  decide

end MaterialGraph
