import MaterialGraph.Proofs.Graph.Path
import MaterialGraph.Proofs.Lists
import MaterialGraph.Table

/-!
Peeling nodes off from the sinks. The counter of a node is, after every round, the number of its
links to reachable consumers that were not yet peeled off, and the nodes peeled off or about to be
are exactly those whose counter is zero.
-/

set_option autoImplicit false

namespace MaterialGraph

theorem Table.find?_map_pair {Value : Type} (value : NodeId → Value) (ids : List NodeId)
    (id : NodeId) :
    Table.find? id (ids.map fun key => (key, value key)) =
      if id ∈ ids then some (value id) else none := by
  induction ids with
  | nil => simp
  | cons first rest ih =>
      by_cases same : first = id
      · subst same
        simp [Table.find?]
      · have other : ¬id = first := fun equal => same equal.symm
        simp [Table.find?, same, other, ih]

theorem Table.find?_of_mem {Key Value : Type} [DecidableEq Key] {table : Table Key Value}
    (distinct : table.keys.Nodup) {key : Key} {value : Value} (member : (key, value) ∈ table) :
    table.find? key = some value := by
  induction table with
  | nil => cases member
  | cons first rest induction =>
      rw [Table.keys, List.map_cons, List.nodup_cons] at distinct
      rw [Table.find?.eq_2]
      rcases List.mem_cons.1 member with rfl | later
      · rw [if_pos rfl]
      · have different : first.1 ≠ key := by
          rintro rfl
          exact distinct.1 (List.mem_map.2 ⟨_, later, rfl⟩)
        rw [if_neg different]
        exact induction distinct.2 later

namespace Wired

variable {Target : Type}

namespace Degrees

def left (degrees : Degrees) (id : NodeId) : Nat := (Table.find? id degrees).getD 0

theorem left_cons (first : NodeId) (degree : Nat) (rest : Degrees) (id : NodeId) :
    left ((first, degree) :: rest) id = if first = id then degree else left rest id := by
  unfold left
  simp only [Table.find?]
  split <;> rfl

theorem keys_release (degrees : Degrees) (producer : NodeId) :
    (degrees.release producer).1.map Prod.fst = degrees.map Prod.fst := by
  induction degrees with
  | nil => rfl
  | cons first rest ih =>
      obtain ⟨id, degree⟩ := first
      unfold release
      split
      · cases degree <;> rfl
      · simp [ih]

theorem left_release (degrees : Degrees) (producer id : NodeId) :
    (degrees.release producer).1.left id =
      degrees.left id - if producer = id then 1 else 0 := by
  induction degrees with
  | nil => simp [release, left]
  | cons first rest ih =>
      obtain ⟨key, degree⟩ := first
      unfold release
      by_cases isProducer : key = producer
      · subst isProducer
        cases degree with
        | zero => by_cases same : key = id <;> simp [left_cons, same]
        | succ less => by_cases same : key = id <;> simp [left_cons, same]
      · by_cases same : key = id
        · subst same
          have other : ¬producer = key := fun equal => isProducer equal.symm
          simp [left_cons, isProducer, other]
        · simp [left_cons, isProducer, same, ih]

theorem release_last (degrees : Degrees) (producer : NodeId) :
    (degrees.release producer).2 = decide (degrees.left producer = 1) := by
  induction degrees with
  | nil => simp [release, left]
  | cons first rest ih =>
      obtain ⟨key, degree⟩ := first
      unfold release
      by_cases isProducer : key = producer
      · cases degree <;> simp [left_cons, isProducer]
      · simp [left_cons, isProducer, ih]

theorem keys_releaseAll (degrees : Degrees) (producers : List NodeId) :
    (degrees.releaseAll producers).1.map Prod.fst = degrees.map Prod.fst := by
  induction producers generalizing degrees with
  | nil => rfl
  | cons producer rest ih =>
      simp only [releaseAll]
      rw [ih, keys_release]

theorem left_releaseAll (degrees : Degrees) (producers : List NodeId) (id : NodeId) :
    (degrees.releaseAll producers).1.left id = degrees.left id - producers.count id := by
  induction producers generalizing degrees with
  | nil => simp [releaseAll]
  | cons producer rest ih =>
      simp only [releaseAll]
      rw [ih, left_release]
      by_cases same : producer = id
      · simp [same]
        omega
      · simp [same]

/-- A node is freed when the count reaches a counter that was not zero before. -/
theorem mem_freed_iff (degrees : Degrees) (producers : List NodeId) (id : NodeId) :
    id ∈ (degrees.releaseAll producers).2 ↔
      0 < degrees.left id ∧ degrees.left id ≤ producers.count id := by
  induction producers generalizing degrees with
  | nil =>
      simp only [releaseAll, List.not_mem_nil, List.count_nil, false_iff]
      omega
  | cons producer rest ih =>
      have later := ih (degrees.release producer).1
      rw [left_release] at later
      simp only [releaseAll, release_last]
      by_cases same : producer = id
      · subst same
        simp only [if_true] at later
        by_cases last : degrees.left producer = 1
        · simp [last]
        · simp only [last, decide_false, Bool.false_eq_true, if_false, List.count_cons_self]
          rw [later]
          omega
      · simp only [if_neg same, Nat.sub_zero] at later
        have other : ¬id = producer := fun equal => same equal.symm
        by_cases last : degrees.left producer = 1 <;> simp [last, other, same, later]

theorem nodup_freed (degrees : Degrees) (producers : List NodeId) :
    (degrees.releaseAll producers).2.Nodup := by
  induction producers generalizing degrees with
  | nil => exact List.nodup_nil
  | cons producer rest ih =>
      simp only [releaseAll, release_last]
      by_cases last : degrees.left producer = 1
      · -- Its counter is zero from now on, so the producer is not freed again.
        have gone : producer ∉ ((degrees.release producer).1.releaseAll rest).2 := by
          intro again
          have positive := ((mem_freed_iff _ _ _).1 again).1
          rw [left_release] at positive
          simp only [if_true] at positive
          omega
        simpa [last] using ⟨gone, ih _⟩
      · simpa [last] using ih _

theorem mem_keys_of_left_pos {degrees : Degrees} {id : NodeId} (positive : 0 < degrees.left id) :
    id ∈ degrees.map Prod.fst := by
  unfold left at positive
  cases found : Table.find? id degrees with
  | none => simp [found] at positive
  | some degree => exact List.mem_map.2 ⟨(id, degree), Table.mem_of_find? found, rfl⟩

end Degrees

/-- How many accepted links lead from a node to nodes of a list that were not yet processed. -/
def openLinks (wired : Wired Target) (within processed : List NodeId) (id : NodeId) : Nat :=
  wired.accepted.countP fun link =>
    link.startNode = id ∧ link.endNode ∈ within ∧ link.endNode ∉ processed

theorem openLinks_pos {wired : Wired Target} {within processed : List NodeId} {id : NodeId} :
    0 < wired.openLinks within processed id ↔
      ∃ consumer, wired.Leads id consumer ∧ consumer ∈ within ∧ consumer ∉ processed := by
  unfold openLinks
  rw [List.countP_pos_iff]
  constructor
  · rintro ⟨link, accepted, fits⟩
    have ⟨starts, inside, waiting⟩ := of_decide_eq_true fits
    exact ⟨link.endNode, ⟨link, accepted, starts, rfl⟩, inside, waiting⟩
  · rintro ⟨consumer, ⟨link, accepted, starts, ends⟩, inside, waiting⟩
    subst ends
    exact ⟨link, accepted, decide_eq_true ⟨starts, inside, waiting⟩⟩

theorem left_degrees (wired : Wired Target) (reach : List NodeId) {id : NodeId}
    (member : id ∈ reach) :
    (wired.degrees reach).left id = wired.openLinks reach [] id := by
  unfold Degrees.left degrees openLinks outgoing
  rw [Table.find?_map_pair fun key =>
    (((wired.accepted.filter fun link => link.startNode = key).map Link.endNode).filter
      reach.contains).length]
  simp only [member, if_true, Option.getD_some, List.filter_map, List.length_map,
    List.filter_filter, ← List.countP_eq_length_filter]
  congr 1
  funext link
  simp [Bool.and_comm]

theorem count_incoming (wired : Wired Target) (producer consumer : NodeId) :
    (wired.incoming consumer).count producer =
      wired.accepted.countP fun link => link.startNode = producer ∧ link.endNode = consumer := by
  unfold incoming List.count
  rw [List.countP_map, List.countP_filter]
  congr 1
  funext link
  simp [Bool.beq_eq_decide_eq]

theorem count_producers (wired : Wired Target) {level : List NodeId} (distinct : level.Nodup)
    (id : NodeId) :
    (wired.producers level).count id =
      wired.accepted.countP fun link => link.startNode = id ∧ link.endNode ∈ level := by
  induction level with
  | nil => simp [producers]
  | cons first rest ih =>
      obtain ⟨absent, restDistinct⟩ := List.nodup_cons.1 distinct
      have split :
          wired.producers (first :: rest) = wired.incoming first ++ wired.producers rest := by
        simp [producers]
      rw [split, List.count_append, ih restDistinct, count_incoming,
        countP_add_countP_of_disjoint]
      · congr 1
        funext link
        simp only [List.mem_cons, ← Bool.decide_or, decide_eq_decide]
        tauto
      · intro link _ atFirst
        have ends := (of_decide_eq_true atFirst).2
        exact decide_eq_false fun atRest => absent (ends ▸ atRest.2)

/-- The links that are open are those into the level and those that stay open after it. -/
theorem openLinks_append_add_count (wired : Wired Target) {within processed level : List NodeId}
    (inside : ∀ id ∈ level, id ∈ within) (fresh : ∀ id ∈ level, id ∉ processed)
    (distinct : level.Nodup) (id : NodeId) :
    wired.openLinks within (processed ++ level) id + (wired.producers level).count id =
      wired.openLinks within processed id := by
  rw [count_producers wired distinct]
  unfold openLinks
  rw [countP_add_countP_of_disjoint]
  · congr 1
    funext link
    simp only [List.mem_append, ← Bool.decide_or, decide_eq_decide]
    have atLevel := inside link.endNode
    have notProcessed := fresh link.endNode
    tauto
  · intro link _ waiting
    have notLevel := (of_decide_eq_true waiting).2.2
    exact decide_eq_false fun atLevel => notLevel (List.mem_append_right _ atLevel.2)

theorem openLinks_append (wired : Wired Target) {within processed level : List NodeId}
    (inside : ∀ id ∈ level, id ∈ within) (fresh : ∀ id ∈ level, id ∉ processed)
    (distinct : level.Nodup) (id : NodeId) :
    wired.openLinks within (processed ++ level) id =
      wired.openLinks within processed id - (wired.producers level).count id := by
  have split := openLinks_append_add_count wired inside fresh distinct id
  omega

/-- The state of peeling: the nodes already processed, the frontier, and the counters. -/
structure Peeling (wired : Wired Target) (reach processed frontier : List NodeId)
    (degrees : Degrees) : Prop where
  keys : degrees.map Prod.fst = reach
  distinct : (processed ++ frontier).Nodup
  inside : ∀ id ∈ processed ++ frontier, id ∈ reach
  counts : ∀ id ∈ reach, degrees.left id = wired.openLinks reach processed id
  free : ∀ id ∈ reach, id ∈ processed ++ frontier ↔ degrees.left id = 0

namespace Peeling

theorem start (wired : Wired Target) {reach : List NodeId} (distinct : reach.Nodup) :
    wired.Peeling reach []
      (((wired.degrees reach).filter fun entry => entry.2 = 0).map Prod.fst)
      (wired.degrees reach) where
  keys := by simp [degrees, Function.comp_def]
  distinct := by
    have keysDistinct : ((wired.degrees reach).map Prod.fst).Nodup := by
      simpa [degrees, Function.comp_def] using distinct
    exact (List.filter_sublist.map Prod.fst).nodup keysDistinct
  inside := by
    intro id member
    simp only [List.nil_append, List.mem_map, List.mem_filter, degrees] at member
    obtain ⟨entry, ⟨⟨key, keyMember, made⟩, _⟩, same⟩ := member
    exact same ▸ made ▸ keyMember
  counts := fun id member => left_degrees wired reach member
  free := by
    intro id member
    have found : Table.find? id (wired.degrees reach) =
        some (((wired.outgoing id).filter reach.contains).length) := by
      unfold degrees
      rw [Table.find?_map_pair fun key => ((wired.outgoing key).filter reach.contains).length]
      simp [member]
    have value : (wired.degrees reach).left id =
        ((wired.outgoing id).filter reach.contains).length := by
      simp [Degrees.left, found]
    rw [value, List.nil_append]
    constructor
    · intro freed
      simp only [List.mem_map, List.mem_filter, degrees] at freed
      obtain ⟨entry, ⟨⟨key, _, made⟩, zero⟩, same⟩ := freed
      subst made
      subst same
      simpa using zero
    · intro zero
      exact List.mem_map.2
        ⟨_, List.mem_filter.2 ⟨Table.mem_of_find? found, by simpa using zero⟩, rfl⟩

variable {wired : Wired Target} {reach processed frontier : List NodeId} {degrees : Degrees}

theorem step (peeling : wired.Peeling reach processed frontier degrees) :
    wired.Peeling reach (processed ++ frontier)
      (degrees.releaseAll (wired.producers frontier)).2
      (degrees.releaseAll (wired.producers frontier)).1 where
  keys := by rw [Degrees.keys_releaseAll, peeling.keys]
  distinct := by
    refine List.nodup_append.2 ⟨peeling.distinct, Degrees.nodup_freed _ _, ?_⟩
    intro old oldMember new newMember same
    subst same
    have zero := (peeling.free old (peeling.inside old oldMember)).1 oldMember
    have positive := ((Degrees.mem_freed_iff _ _ _).1 newMember).1
    omega
  inside := by
    intro id member
    rcases List.mem_append.1 member with old | freed
    · exact peeling.inside id old
    · have key := Degrees.mem_keys_of_left_pos ((Degrees.mem_freed_iff _ _ _).1 freed).1
      exact peeling.keys ▸ key
  counts := by
    intro id member
    obtain ⟨_, frontierDistinct, apart⟩ := List.nodup_append.1 peeling.distinct
    rw [Degrees.left_releaseAll, peeling.counts id member,
      openLinks_append wired _ _ frontierDistinct]
    · exact fun node atFrontier => peeling.inside node (List.mem_append_right _ atFrontier)
    · exact fun node atFrontier earlier => apart node earlier node atFrontier rfl
  free := by
    intro id member
    rw [List.mem_append, peeling.free id member, Degrees.left_releaseAll, Degrees.mem_freed_iff]
    omega

theorem consumers_processed (peeling : wired.Peeling reach processed frontier degrees)
    {id consumer : NodeId} (atFrontier : id ∈ frontier) (leads : wired.Leads id consumer)
    (reached : consumer ∈ reach) : consumer ∈ processed := by
  have member : id ∈ processed ++ frontier := List.mem_append_right _ atFrontier
  have inReach := peeling.inside id member
  have zero := (peeling.free id inReach).1 member
  rw [peeling.counts id inReach] at zero
  by_contra waiting
  have positive := openLinks_pos.2 ⟨consumer, leads, reached, waiting⟩
  omega

/-- When the frontier dies out, what was emitted is what has no counter left. -/
theorem run (peeling : wired.Peeling reach processed frontier degrees) :
    wired.Peeling reach (processed ++ (wired.peel degrees frontier).1.flatten) []
      (wired.peel degrees frontier).2 := by
  fun_induction peel wired degrees frontier generalizing processed with
  | case1 degrees => simpa using peeling
  | case2 degrees frontier nonempty released levels left result =>
      rename_i ih
      have later := ih peeling.step
      rw [result] at later
      simpa [List.append_assoc] using later

/-- Every node is emitted after all levels that hold a reachable consumer of it. -/
theorem consumers_before (peeling : wired.Peeling reach processed frontier degrees)
    {before after : List (List NodeId)} {level : List NodeId}
    (split : (wired.peel degrees frontier).1 = before ++ level :: after)
    {id consumer : NodeId} (atLevel : id ∈ level) (leads : wired.Leads id consumer)
    (reached : consumer ∈ reach) : consumer ∈ processed ++ before.flatten := by
  fun_induction peel wired degrees frontier generalizing processed before with
  | case1 degrees => simp at split
  | case2 degrees frontier nonempty released levels left result =>
      rename_i ih
      cases before with
      | nil =>
          obtain ⟨same, _⟩ := List.cons.inj split
          exact List.mem_append_left _ (peeling.consumers_processed (same ▸ atLevel) leads reached)
      | cons first rest =>
          obtain ⟨same, tail⟩ := List.cons.inj split
          have later := ih peeling.step (by rw [result]; exact tail)
          simpa [same, List.append_assoc] using later

end Peeling

end Wired

end MaterialGraph
