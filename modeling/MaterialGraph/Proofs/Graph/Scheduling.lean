import MaterialGraph.Proofs.Graph.Peeling
import Mathlib.Data.List.Perm.Subperm
import Mathlib.Data.Set.Finite.Basic
import Mathlib.Order.WellFounded

/-!
Scheduling is sound and complete. The nodes that feed the roots are ordered, producers first and
each of them once, unless they hold a directed cycle, and then there is no schedule.
-/

set_option autoImplicit false

namespace MaterialGraph

/-- Where every member of a finite list leads to a member, some member leads back to itself. -/
theorem exists_cycle_of_successors {leads : NodeId → NodeId → Prop} {ids : List NodeId}
    {first : NodeId} (member : first ∈ ids)
    (successor : ∀ id ∈ ids, ∃ next ∈ ids, leads id next) :
    ∃ id ∈ ids, Relation.TransGen leads id id := by
  by_contra acyclic
  let Later : {id // id ∈ ids} → {id // id ∈ ids} → Prop :=
    fun later earlier => Relation.TransGen leads earlier.1 later.1
  have : Finite {id // id ∈ ids} := List.finite_toSet ids
  have : IsTrans _ Later := ⟨fun _ _ _ late early => early.trans late⟩
  have : Std.Irrefl Later := ⟨fun id loop => acyclic ⟨id.1, id.2, loop⟩⟩
  have founded : WellFounded Later := Finite.wellFounded_of_trans_of_irrefl Later
  obtain ⟨last, _, isLast⟩ := founded.has_min Set.univ ⟨⟨first, member⟩, trivial⟩
  obtain ⟨next, nextMember, step⟩ := successor last.1 last.2
  exact isLast ⟨next, nextMember⟩ trivial (Relation.TransGen.single step)

namespace Wired

variable {Target : Type}

def peeled (wired : Wired Target) (roots : List NodeId) : List (List NodeId) × Degrees :=
  let degrees := wired.degrees (wired.reachable roots)
  wired.peel degrees ((degrees.filter fun entry => entry.2 = 0).map Prod.fst)

theorem peeling_peeled (wired : Wired Target) (roots : List NodeId) :
    wired.Peeling (wired.reachable roots) (wired.peeled roots).1.flatten []
      (wired.peeled roots).2 := by
  simpa [peeled] using (Peeling.start wired (nodup_reachable wired roots)).run

theorem nodup_peeled (wired : Wired Target) (roots : List NodeId) :
    (wired.peeled roots).1.flatten.Nodup := by
  simpa using (peeling_peeled wired roots).distinct

theorem schedule_eq (wired : Wired Target) (roots : List NodeId) :
    wired.schedule roots =
      if (wired.peeled roots).1.flatten.length < (wired.reachable roots).length then
        .error ⟨((wired.peeled roots).2.filter fun entry => 0 < entry.2).map Prod.fst⟩
      else .ok ⟨(wired.peeled roots).1, (wired.peeled roots).1.reverse.flatten⟩ := rfl

theorem schedule_eq_ok {wired : Wired Target} {roots : List NodeId} {schedule : Schedule}
    (scheduled : wired.schedule roots = .ok schedule) :
    (wired.reachable roots).length ≤ (wired.peeled roots).1.flatten.length ∧
      schedule = ⟨(wired.peeled roots).1, (wired.peeled roots).1.reverse.flatten⟩ := by
  rw [schedule_eq] at scheduled
  split at scheduled
  · cases scheduled
  · rename_i enough
    cases scheduled
    exact ⟨Nat.le_of_not_lt enough, rfl⟩

theorem mem_peeled_of_length_le {wired : Wired Target} {roots : List NodeId}
    (enough : (wired.reachable roots).length ≤ (wired.peeled roots).1.flatten.length)
    {id : NodeId} (reached : id ∈ wired.reachable roots) :
    id ∈ (wired.peeled roots).1.flatten := by
  have peeling := peeling_peeled wired roots
  have inside : (wired.peeled roots).1.flatten ⊆ wired.reachable roots := by
    intro node member
    exact peeling.inside node (by simpa using member)
  have same :=
    (List.subperm_of_subset (nodup_peeled wired roots) inside).perm_of_length_le enough
  exact same.mem_iff.2 reached

theorem mem_reverse_flatten {levels : List (List NodeId)} {id : NodeId} :
    id ∈ levels.reverse.flatten ↔ id ∈ levels.flatten := by
  simp [List.mem_flatten]

theorem nodup_reverse_flatten {levels : List (List NodeId)} (distinct : levels.flatten.Nodup) :
    levels.reverse.flatten.Nodup :=
  (List.Perm.flatten (List.reverse_perm levels)).nodup_iff.2 distinct

theorem mem_order {wired : Wired Target} {roots : List NodeId} {schedule : Schedule}
    (scheduled : wired.schedule roots = .ok schedule) {id : NodeId} :
    id ∈ schedule.order ↔ wired.Feeds roots id := by
  obtain ⟨enough, rfl⟩ := schedule_eq_ok scheduled
  rw [mem_reverse_flatten, ← mem_reachable]
  constructor
  · intro member
    exact (peeling_peeled wired roots).inside id (by simpa using member)
  · exact mem_peeled_of_length_le enough

theorem nodup_order {wired : Wired Target} {roots : List NodeId} {schedule : Schedule}
    (scheduled : wired.schedule roots = .ok schedule) : schedule.order.Nodup := by
  obtain ⟨_, rfl⟩ := schedule_eq_ok scheduled
  exact nodup_reverse_flatten (nodup_peeled wired roots)

/-- A producer is emitted in a later level than its consumers, and so stands before them. -/
theorem idxOf_lt_idxOf_of_leads {wired : Wired Target} {roots : List NodeId} {schedule : Schedule}
    (scheduled : wired.schedule roots = .ok schedule) {producer consumer : NodeId}
    (leads : wired.Leads producer consumer) (feeds : wired.Feeds roots consumer) :
    schedule.order.idxOf producer < schedule.order.idxOf consumer := by
  have distinct := nodup_order scheduled
  have producerMember := (mem_order scheduled).2 (feeds.of_leads leads)
  obtain ⟨enough, rfl⟩ := schedule_eq_ok scheduled
  obtain ⟨level, levelMember, atLevel⟩ := List.mem_flatten.1 (mem_reverse_flatten.1 producerMember)
  obtain ⟨before, after, split⟩ := List.append_of_mem levelMember
  have earlier : consumer ∈ before.flatten := by
    simpa using (Peeling.start wired (nodup_reachable wired roots)).consumers_before split atLevel
      leads (mem_reachable.2 feeds)
  have order : (wired.peeled roots).1.reverse.flatten =
      (after.reverse.flatten ++ level) ++ before.reverse.flatten := by
    rw [split]
    simp
  simp only [order] at distinct ⊢
  have inFront : producer ∈ after.reverse.flatten ++ level := List.mem_append_right _ atLevel
  have notInFront : consumer ∉ after.reverse.flatten ++ level := by
    intro member
    exact (List.nodup_append.1 distinct).2.2 consumer member consumer
      (mem_reverse_flatten.2 earlier) rfl
  rw [List.idxOf_append_of_mem inFront, List.idxOf_append_of_notMem notInFront]
  have bound := List.idxOf_lt_length_of_mem inFront
  omega

theorem idxOf_lt_idxOf_of_path {wired : Wired Target} {roots : List NodeId} {schedule : Schedule}
    (scheduled : wired.schedule roots = .ok schedule) {first last : NodeId}
    (path : Relation.TransGen wired.Leads first last) (feeds : wired.Feeds roots last) :
    schedule.order.idxOf first < schedule.order.idxOf last := by
  induction path using Relation.TransGen.head_induction_on with
  | single leads => exact idxOf_lt_idxOf_of_leads scheduled leads feeds
  | head leads path ih =>
      have middle := feeds.of_path path.to_reflTransGen
      exact (idxOf_lt_idxOf_of_leads scheduled leads middle).trans ih

/-- A node that was not emitted has a link to another one, and so a path to a cycle of such. -/
theorem exists_cycle_of_not_emitted {wired : Wired Target} {roots : List NodeId} {stuck : NodeId}
    (reached : stuck ∈ wired.reachable roots)
    (waiting : stuck ∉ (wired.peeled roots).1.flatten) :
    ∃ member, wired.Feeds roots member ∧ Relation.ReflTransGen wired.Leads stuck member ∧
      Relation.TransGen wired.Leads member member := by
  classical
  have peeling := peeling_peeled wired roots
  let remainder := (wired.reachable roots).filter fun id =>
    id ∉ (wired.peeled roots).1.flatten ∧ Relation.ReflTransGen wired.Leads stuck id
  have mem_remainder : ∀ id, id ∈ remainder ↔ id ∈ wired.reachable roots ∧
      id ∉ (wired.peeled roots).1.flatten ∧ Relation.ReflTransGen wired.Leads stuck id := by
    intro id
    simp only [remainder, List.mem_filter, decide_eq_true_eq]
  have successor : ∀ id ∈ remainder, ∃ next ∈ remainder, wired.Leads id next := by
    intro id member
    obtain ⟨idReached, idWaiting, path⟩ := (mem_remainder id).1 member
    have counter : (wired.peeled roots).2.left id ≠ 0 := by
      intro zero
      exact idWaiting (by simpa using (peeling.free id idReached).2 zero)
    rw [peeling.counts id idReached] at counter
    obtain ⟨next, leads, nextReached, nextWaiting⟩ := openLinks_pos.1 (Nat.pos_of_ne_zero counter)
    exact ⟨next, (mem_remainder next).2 ⟨nextReached, nextWaiting, path.tail leads⟩, leads⟩
  obtain ⟨id, member, cycle⟩ := exists_cycle_of_successors
    ((mem_remainder stuck).2 ⟨reached, waiting, Relation.ReflTransGen.refl⟩) successor
  obtain ⟨idReached, _, path⟩ := (mem_remainder id).1 member
  exact ⟨id, mem_reachable.1 idReached, path, cycle⟩

theorem exists_not_emitted {wired : Wired Target} {roots : List NodeId}
    (short : (wired.peeled roots).1.flatten.length < (wired.reachable roots).length) :
    ∃ stuck ∈ wired.reachable roots, stuck ∉ (wired.peeled roots).1.flatten := by
  by_contra emitted
  push Not at emitted
  have fewer := (List.subperm_of_subset (nodup_reachable wired roots) emitted).length_le
  omega

theorem schedule_isOk_iff (wired : Wired Target) (roots : List NodeId) :
    (∃ schedule, wired.schedule roots = .ok schedule) ↔ ¬wired.HasCycle roots := by
  constructor
  · rintro ⟨schedule, scheduled⟩ ⟨id, feeds, cycle⟩
    exact Nat.lt_irrefl _ (idxOf_lt_idxOf_of_path scheduled cycle feeds)
  · intro acyclic
    rw [schedule_eq]
    split
    · rename_i short
      obtain ⟨stuck, reached, waiting⟩ := exists_not_emitted short
      obtain ⟨member, feeds, _, cycle⟩ := exists_cycle_of_not_emitted reached waiting
      exact absurd ⟨member, feeds, cycle⟩ acyclic
    · exact ⟨_, rfl⟩

/-- There is a schedule unless the nodes that feed the roots hold a directed cycle; it lists
exactly these nodes, each once, and the producer of every accepted link before its consumer. -/
theorem schedule_sound_and_complete (wired : Wired Target) (roots : List NodeId) :
    ((∃ schedule, wired.schedule roots = .ok schedule) ↔ ¬wired.HasCycle roots) ∧
      ∀ schedule, wired.schedule roots = .ok schedule →
        schedule.order.Nodup ∧
        (∀ id, id ∈ schedule.order ↔ wired.Feeds roots id) ∧
        ∀ link ∈ wired.accepted,
          wired.Feeds roots link.startNode → wired.Feeds roots link.endNode →
            schedule.order.idxOf link.startNode < schedule.order.idxOf link.endNode := by
  refine ⟨schedule_isOk_iff wired roots, ?_⟩
  intro schedule scheduled
  refine ⟨nodup_order scheduled, fun id => mem_order scheduled, ?_⟩
  intro link accepted _ feeds
  exact idxOf_lt_idxOf_of_leads scheduled ⟨link, accepted, rfl, rfl⟩ feeds

end Wired

end MaterialGraph
