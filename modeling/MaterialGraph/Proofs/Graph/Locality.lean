import MaterialGraph.Proofs.Graph.Scheduling

/-!
Scheduling is local. What is reached from the roots, and the order in which it is scheduled, depend
on nothing but the producers of the nodes that are reached, link by link. Two graphs that agree on
these are scheduled alike, whatever else they hold.
-/

set_option autoImplicit false

namespace MaterialGraph.Wired

variable {Target : Type}

structure SameLinks (inside : NodeId → Prop) (left right : Wired Target) : Prop where
  incoming : ∀ id, inside id → left.incoming id = right.incoming id
  closed : ∀ id, inside id → ∀ producer ∈ left.incoming id, inside producer

variable {inside : NodeId → Prop} {left right : Wired Target}

namespace SameLinks

theorem inside_of_feeds (links : SameLinks inside left right) {roots : List NodeId}
    (among : ∀ root ∈ roots, left.graph.contains root = true → inside root) {id : NodeId}
    (feeds : left.Feeds roots id) : inside id := by
  obtain ⟨root, listed, present, path⟩ := feeds
  induction path using Relation.ReflTransGen.head_induction_on with
  | refl => exact among root listed present
  | head leads _ induction => exact links.closed _ induction _ (mem_incoming.2 leads)

theorem producers_eq (links : SameLinks inside left right) {level : List NodeId}
    (among : ∀ id ∈ level, inside id) : left.producers level = right.producers level := by
  apply List.flatMap_congr
  intro id member
  exact links.incoming id (among id member)

theorem explore_eq (links : SameLinks inside left right) (seen pending : List NodeId)
    (among : ∀ id ∈ pending, inside id) :
    left.explore seen pending = right.explore seen pending := by
  fun_induction explore left seen pending with
  | case1 seen => rw [explore]
  | case2 seen current rest found induction =>
      rw [List.forall_mem_cons] at among
      have same := links.incoming current among.1
      rw [explore, ← same]
      apply induction
      intro id member
      rcases List.mem_append.1 member with old | new
      · exact among.2 id old
      · exact links.closed current among.1 id (mem_of_mem_newcomers new).1

theorem reachable_eq (links : SameLinks inside left right) {roots : List NodeId}
    (known : ∀ root ∈ roots, left.graph.contains root = right.graph.contains root)
    (among : ∀ root ∈ roots, left.graph.contains root = true → inside root) :
    left.reachable roots = right.reachable roots := by
  have starts : roots.filter left.graph.contains = roots.filter right.graph.contains :=
    List.filter_congr known
  unfold reachable
  rw [← starts]
  apply links.explore_eq
  intro id member
  obtain ⟨listed, present⟩ := List.mem_filter.1 (mem_of_mem_newcomers member).1
  exact among id listed present

end SameLinks

theorem length_outgoing (wired : Wired Target) {reach : List NodeId} (distinct : reach.Nodup)
    (id : NodeId) :
    ((wired.outgoing id).filter reach.contains).length = (wired.producers reach).count id := by
  rw [count_producers wired distinct]
  unfold outgoing
  simp only [List.filter_map, List.length_map, List.filter_filter, ← List.countP_eq_length_filter]
  congr 1
  funext link
  simp [Bool.and_comm]

namespace SameLinks

theorem degrees_eq (links : SameLinks inside left right) {reach : List NodeId}
    (distinct : reach.Nodup) (among : ∀ id ∈ reach, inside id) :
    left.degrees reach = right.degrees reach := by
  unfold degrees
  apply List.map_congr_left
  intro id _
  rw [length_outgoing left distinct, length_outgoing right distinct, links.producers_eq among]

theorem peel_eq (links : SameLinks inside left right) (degrees : Degrees) (frontier : List NodeId)
    (among : ∀ id ∈ frontier, inside id) :
    left.peel degrees frontier = right.peel degrees frontier := by
  fun_induction peel left degrees frontier with
  | case1 degrees => rw [peel, if_pos rfl]
  | case2 degrees frontier nonempty released levels leftOver result induction =>
      have same := links.producers_eq among
      have freed : ∀ id ∈ released.2, inside id := by
        intro id member
        obtain ⟨positive, enough⟩ :=
          (Degrees.mem_freed_iff degrees (left.producers frontier) id).1 member
        have listed : id ∈ left.producers frontier := List.count_pos_iff.1 (by omega)
        obtain ⟨consumer, onFrontier, produces⟩ := List.mem_flatMap.1 listed
        exact links.closed consumer (among consumer onFrontier) id produces
      have later : right.peel (degrees.releaseAll (left.producers frontier)).1
          (degrees.releaseAll (left.producers frontier)).2 = (levels, leftOver) :=
        (induction freed).symm.trans result
      rw [peel, if_neg nonempty, ← same]
      simp only [later]

/-- Roots that both graphs know, or neither does, are scheduled alike. -/
theorem schedule_eq (links : SameLinks inside left right) {roots : List NodeId}
    (known : ∀ root ∈ roots, left.graph.contains root = right.graph.contains root)
    (among : ∀ root ∈ roots, left.graph.contains root = true → inside root) :
    left.schedule roots = right.schedule roots := by
  have reach := links.reachable_eq known among
  have reached : ∀ id ∈ left.reachable roots, inside id :=
    fun id member => links.inside_of_feeds among (mem_reachable.1 member)
  have counters := links.degrees_eq (nodup_reachable left roots) reached
  have peels : left.peeled roots = right.peeled roots := by
    unfold peeled
    rw [← reach, ← counters]
    apply links.peel_eq
    intro id member
    obtain ⟨entry, free, rfl⟩ := List.mem_map.1 member
    obtain ⟨other, listed, rfl⟩ := List.mem_map.1 (List.mem_filter.1 free).1
    exact reached other listed
  rw [Wired.schedule_eq, Wired.schedule_eq, peels, reach]

end SameLinks

end MaterialGraph.Wired
