import MaterialGraph.Callable.Basic
import MaterialGraph.Proofs.Graph.Scheduling
import Mathlib.Data.List.Nodup
import Mathlib.Logic.Relation
import Mathlib.Order.Bounds.Basic

/-!
Levels. A node is peeled off one round after the last of its consumers among the nodes that feed
the roots. The number of its level is therefore the length of the longest path of accepted links
that starts at it and stays among these nodes.
-/

set_option autoImplicit false

namespace MaterialGraph

/-- The node is in the level with the number; levels are numbered from zero. -/
def InLevel (levels : List (List NodeId)) (number : Nat) (id : NodeId) : Prop :=
  ∃ level, levels[number]? = some level ∧ id ∈ level

theorem exists_inLevel_iff {levels : List (List NodeId)} {id : NodeId} :
    (∃ number, InLevel levels number id) ↔ id ∈ levels.flatten := by
  rw [List.mem_flatten]
  constructor
  · rintro ⟨number, level, found, member⟩
    exact ⟨level, List.mem_of_getElem? found, member⟩
  · rintro ⟨level, listed, member⟩
    obtain ⟨number, found⟩ := List.mem_iff_getElem?.1 listed
    exact ⟨number, level, found, member⟩

theorem InLevel.eq {levels : List (List NodeId)} (distinct : levels.flatten.Nodup)
    {left right : Nat} {id : NodeId} (inLeft : InLevel levels left id)
    (inRight : InLevel levels right id) : left = right := by
  obtain ⟨_, atLeft, leftMember⟩ := inLeft
  obtain ⟨_, atRight, rightMember⟩ := inRight
  have few := List.nodup_iff_count_le_one.1 distinct id
  rw [← List.flatMap_id] at few
  exact eq_of_count_flatMap_le_one few atLeft leftMember atRight rightMember

namespace Wired

variable {Target : Type}

section Rounds

variable {wired : Wired Target} {degrees : Degrees} {frontier : List NodeId}

theorem nonempty_of_mem_peel {level : List NodeId}
    (listed : level ∈ (wired.peel degrees frontier).1) : level ≠ [] := by
  fun_induction peel wired degrees frontier with
  | case1 degrees => cases listed
  | case2 degrees frontier nonempty released levels left result induction =>
      rcases List.mem_cons.1 listed with rfl | later
      · exact nonempty
      · exact induction (result ▸ later)

theorem mem_frontier_of_inLevel {id : NodeId}
    (first : InLevel (wired.peel degrees frontier).1 0 id) : id ∈ frontier := by
  obtain ⟨level, found, member⟩ := first
  rw [peel] at found
  split at found
  · cases found
  · cases found
    exact member

/-- A node that is peeled off later than in the first round was held back by a consumer in the
round before. -/
theorem exists_consumer_of_inLevel {number : Nat} {id : NodeId}
    (later : InLevel (wired.peel degrees frontier).1 (number + 1) id) :
    ∃ consumer, wired.Leads id consumer ∧
      InLevel (wired.peel degrees frontier).1 number consumer := by
  fun_induction peel wired degrees frontier generalizing number with
  | case1 degrees =>
      obtain ⟨_, found, _⟩ := later
      cases found
  | case2 degrees frontier nonempty released levels left result =>
      rename_i induction
      obtain ⟨level, found, member⟩ := later
      rw [List.getElem?_cons_succ] at found
      cases number with
      | zero =>
          have freed : id ∈ released.2 := by
            apply mem_frontier_of_inLevel
            exact ⟨level, by rw [result]; exact found, member⟩
          obtain ⟨positive, enough⟩ := (Degrees.mem_freed_iff _ _ _).1 freed
          have produced : id ∈ wired.producers frontier := List.count_pos_iff.1 (by omega)
          obtain ⟨consumer, onFrontier, produces⟩ := List.mem_flatMap.1 produced
          exact ⟨consumer, mem_incoming.1 produces, frontier, rfl, onFrontier⟩
      | succ number =>
          rw [result] at induction
          obtain ⟨consumer, leads, before, foundBefore, onLevel⟩ :=
            induction ⟨level, found, member⟩
          exact ⟨consumer, leads, before, foundBefore, onLevel⟩

end Rounds

/-- A path of accepted links that starts at the node and stays among the nodes that feed the
roots. -/
def LinkPath (wired : Wired Target) (roots : List NodeId) : NodeId → List Link → Prop
  | id, [] => wired.Feeds roots id
  | id, link :: rest =>
      wired.Feeds roots id ∧ (link ∈ wired.accepted ∧ link.startNode = id) ∧
        wired.LinkPath roots link.endNode rest

variable {wired : Wired Target} {roots : List NodeId} {id : NodeId}

theorem LinkPath.feeds {links : List Link} (path : wired.LinkPath roots id links) :
    wired.Feeds roots id := by
  cases links with
  | nil => exact path
  | cons _ _ => exact path.1

theorem feeds_of_inLevel {number : Nat} (leveled : InLevel (wired.peeled roots).1 number id) :
    wired.Feeds roots id := by
  have emitted := exists_inLevel_iff.1 ⟨number, leveled⟩
  exact mem_reachable.1 ((peeling_peeled wired roots).inside id (by simpa using emitted))

theorem exists_lt_inLevel_of_leads {number : Nat} {consumer : NodeId}
    (leveled : InLevel (wired.peeled roots).1 number id) (leads : wired.Leads id consumer)
    (feeds : wired.Feeds roots consumer) :
    ∃ earlier < number, InLevel (wired.peeled roots).1 earlier consumer := by
  obtain ⟨level, found, member⟩ := leveled
  obtain ⟨bound, here⟩ := List.getElem?_eq_some_iff.1 found
  have split : (wired.peeled roots).1 = (wired.peeled roots).1.take number ++
      level :: (wired.peeled roots).1.drop (number + 1) := by
    rw [← here, List.getElem_cons_drop, List.take_append_drop]
  have before : consumer ∈ ((wired.peeled roots).1.take number).flatten := by
    simpa using (Peeling.start wired (nodup_reachable wired roots)).consumers_before split member
      leads (mem_reachable.2 feeds)
  obtain ⟨earlier, level, foundEarlier, onLevel⟩ := exists_inLevel_iff.2 before
  rw [List.getElem?_take] at foundEarlier
  split at foundEarlier
  · rename_i smaller
    exact ⟨earlier, smaller, level, foundEarlier, onLevel⟩
  · cases foundEarlier

/-- Along a path of nodes that feed the roots the levels descend. -/
theorem exists_lt_inLevel_of_path {last : NodeId} (path : Relation.TransGen wired.Leads id last)
    (feeds : wired.Feeds roots last) {number : Nat}
    (leveled : InLevel (wired.peeled roots).1 number id) :
    ∃ lower < number, InLevel (wired.peeled roots).1 lower last := by
  induction path using Relation.TransGen.head_induction_on generalizing number with
  | single leads => exact exists_lt_inLevel_of_leads leveled leads feeds
  | head leads onward induction =>
      obtain ⟨lower, smaller, leveledNext⟩ :=
        exists_lt_inLevel_of_leads leveled leads (feeds.of_path onward.to_reflTransGen)
      obtain ⟨lowest, least, leveledLast⟩ := induction leveledNext
      exact ⟨lowest, least.trans smaller, leveledLast⟩

theorem LinkPath.length_le {links : List Link} (path : wired.LinkPath roots id links) {number : Nat}
    (leveled : InLevel (wired.peeled roots).1 number id) : links.length ≤ number := by
  induction links generalizing id number with
  | nil => exact Nat.zero_le number
  | cons link rest induction =>
      obtain ⟨_, ⟨accepted, rfl⟩, onward⟩ := path
      obtain ⟨earlier, smaller, leveledNext⟩ :=
        exists_lt_inLevel_of_leads leveled ⟨link, accepted, rfl, rfl⟩ onward.feeds
      have shorter := induction onward leveledNext
      rw [List.length_cons]
      omega

theorem exists_linkPath_of_inLevel {number : Nat}
    (leveled : InLevel (wired.peeled roots).1 number id) :
    ∃ links, wired.LinkPath roots id links ∧ links.length = number := by
  induction number generalizing id with
  | zero => exact ⟨[], feeds_of_inLevel leveled, rfl⟩
  | succ number induction =>
      obtain ⟨consumer, ⟨link, accepted, starts, rfl⟩, leveledNext⟩ :=
        exists_consumer_of_inLevel leveled
      obtain ⟨links, path, length⟩ := induction leveledNext
      exact ⟨link :: links, ⟨feeds_of_inLevel leveled, ⟨accepted, starts⟩, path⟩,
        congrArg (· + 1) length⟩

/-- The number of the level of a node is the length of its longest path. -/
theorem isGreatest_of_inLevel {number : Nat}
    (leveled : InLevel (wired.peeled roots).1 number id) :
    IsGreatest {length | ∃ links, wired.LinkPath roots id links ∧ links.length = length}
      number := by
  refine ⟨exists_linkPath_of_inLevel leveled, ?_⟩
  rintro _ ⟨links, path, rfl⟩
  exact path.length_le leveled

/-- The levels of a schedule are layers of longest paths: a node is in the level with a number
exactly if the longest path of accepted links that starts at it and stays among the nodes that feed
the roots has that many links. Each of these nodes is in one level, once, no level is empty, and the
order runs through the levels from the last to the first. -/
theorem schedule_levels_longestPaths {schedule : Schedule}
    (scheduled : wired.schedule roots = .ok schedule) :
    (∀ number id, InLevel schedule.levels number id ↔
      IsGreatest {length | ∃ links, wired.LinkPath roots id links ∧ links.length = length} number) ∧
    (∀ id, wired.Feeds roots id → ∃! number, InLevel schedule.levels number id) ∧
    schedule.levels.flatten.Nodup ∧
    (∀ level ∈ schedule.levels, level ≠ []) ∧
    schedule.order = schedule.levels.reverse.flatten := by
  obtain ⟨enough, rfl⟩ := schedule_eq_ok scheduled
  have leveled : ∀ id, wired.Feeds roots id →
      ∃ number, InLevel (wired.peeled roots).1 number id := fun id feeds =>
    exists_inLevel_iff.2 (mem_peeled_of_length_le enough (mem_reachable.2 feeds))
  refine ⟨?_, ?_, nodup_peeled wired roots, fun level listed => nonempty_of_mem_peel listed, rfl⟩
  · intro number id
    refine ⟨isGreatest_of_inLevel, ?_⟩
    intro longest
    obtain ⟨_, path, _⟩ := longest.1
    obtain ⟨other, leveledOther⟩ := leveled id path.feeds
    rw [longest.unique (isGreatest_of_inLevel leveledOther)]
    exact leveledOther
  · intro id feeds
    obtain ⟨number, leveledHere⟩ := leveled id feeds
    exact ⟨number, leveledHere, fun other leveledOther =>
      leveledOther.eq (nodup_peeled wired roots) leveledHere⟩

end Wired

namespace Sample

def shortcut : Material :=
  ((Graph.empty "Shortcut").insert (.ofKind 0 (.constant (.scalar .one) none)))
    |>.insertRoot (.ofKind 1 (.math .sin))
    |>.insertRoot (.ofKind 2 (.math .add))
    |>.connect ⟨0, 0, 1, 0⟩
    |>.connect ⟨1, 0, 2, 0⟩
    |>.connect ⟨0, 0, 2, 1⟩

def shortcutWired : WiredMaterial :=
  match shortcut.wire .strict with
  | .ok wired => wired
  | .error _ => .bare shortcut

end Sample

/-- The constant feeds the sum directly, but is in the level of its longer path through the sine. -/
theorem Wired.schedule_levels_longestPaths_shortcut :
    Sample.shortcut.wire .strict = .ok Sample.shortcutWired ∧
      Sample.shortcutWired.schedule [1, 2] = .ok ⟨[[2], [1], [0]], [0, 1, 2]⟩ ∧
      IsGreatest {length | ∃ links, Sample.shortcutWired.LinkPath [1, 2] 0 links ∧
        links.length = length} 2 := by
  have scheduled :
      Sample.shortcutWired.schedule [1, 2] = .ok ⟨[[2], [1], [0]], [0, 1, 2]⟩ := by decide +kernel
  obtain ⟨layers, _⟩ := Wired.schedule_levels_longestPaths scheduled
  exact ⟨rfl, scheduled, (layers 2 0).1 ⟨[0], rfl, List.mem_singleton.2 rfl⟩⟩

end MaterialGraph
