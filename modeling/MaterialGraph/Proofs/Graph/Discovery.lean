import MaterialGraph.Proofs.Graph.Path
import MaterialGraph.Proofs.Lists

/-!
The order of discovery. The search lists the nodes that feed the roots at first sight: it looks at
the roots that exist, and then at the producers of each listed node in turn. No other list does, and
nodes that fewer links separate from the roots come first in it.
-/

set_option autoImplicit false

namespace MaterialGraph

theorem eraseDups_append_eq_newcomers (items candidates : List NodeId) :
    (items ++ candidates).eraseDups = items.eraseDups ++ newcomers items.eraseDups candidates := by
  induction candidates generalizing items with
  | nil => simp [newcomers]
  | cons first rest induction =>
      have split : items ++ first :: rest = (items ++ [first]) ++ rest := by simp
      rw [split, induction, newcomers]
      by_cases known : first ∈ items
      · have listed : [first] ⊆ items := List.cons_subset.2 ⟨known, List.nil_subset _⟩
        rw [eraseDups_append_of_subset listed, if_pos (by simpa using known)]
      · rw [eraseDups_snoc_of_notMem known, if_neg (by simpa using known), List.append_assoc]
        rfl

namespace Wired

variable {Target : Type} {wired : Wired Target} {roots : List NodeId}

/-- What comes into sight of one who looks at the roots that exist and then at the producers of
each node of a list, in order and each once. -/
def inSight (wired : Wired Target) (roots looked : List NodeId) : List NodeId :=
  (roots.filter wired.graph.contains ++ wired.producers looked).eraseDups

structure DiscoveryOrder (wired : Wired Target) (roots order : List NodeId) : Prop where
  members : ∀ id, id ∈ order ↔ wired.Feeds roots id
  sight : order = wired.inSight roots order

def WithinLinks (wired : Wired Target) (roots : List NodeId) : Nat → NodeId → Prop
  | 0, id => id ∈ roots.filter wired.graph.contains
  | links + 1, id => id ∈ roots.filter wired.graph.contains ∨
      ∃ consumer, wired.Leads id consumer ∧ wired.WithinLinks roots links consumer

theorem mem_inSight {looked : List NodeId} {id : NodeId} :
    id ∈ wired.inSight roots looked ↔ id ∈ roots.filter wired.graph.contains ∨
      ∃ consumer ∈ looked, wired.Leads id consumer := by
  unfold inSight producers
  simp only [List.mem_eraseDups, List.mem_append, List.mem_flatMap, mem_incoming]

theorem inSight_append (roots looked more : List NodeId) :
    wired.inSight roots (looked ++ more) = wired.inSight roots looked ++
      newcomers (wired.inSight roots looked) (wired.producers more) := by
  have split : wired.producers (looked ++ more) = wired.producers looked ++ wired.producers more :=
    List.flatMap_append
  unfold inSight
  rw [split, ← List.append_assoc, eraseDups_append_eq_newcomers]

/-- What was seen is what came into sight of the roots and the nodes looked at so far. -/
theorem explore_eq_inSight {seen pending : List NodeId} (looked : List NodeId)
    (split : seen = looked ++ pending) (sight : seen = wired.inSight roots looked) :
    wired.explore seen pending = wired.inSight roots (wired.explore seen pending) := by
  fun_induction explore wired seen pending generalizing looked with
  | case1 seen =>
      rw [List.append_nil] at split
      rw [split] at sight ⊢
      exact sight
  | case2 seen current rest found induction =>
      have single : wired.producers [current] = wired.incoming current := List.flatMap_singleton ..
      apply induction (looked ++ [current])
      · rw [split]
        simp
      · rw [inSight_append, ← sight, single]

theorem discoveryOrder_reachable (wired : Wired Target) (roots : List NodeId) :
    wired.DiscoveryOrder roots (wired.reachable roots) where
  members := fun _ => mem_reachable
  sight := by
    have known := eraseDups_append_eq_newcomers [] (roots.filter wired.graph.contains)
    rw [List.nil_append, List.eraseDups_nil, List.nil_append] at known
    unfold reachable
    exact explore_eq_inSight [] rfl (by simp [inSight, producers, known])

namespace DiscoveryOrder

variable {order other early late : List NodeId}

theorem nodup (discovered : wired.DiscoveryOrder roots order) : order.Nodup := by
  rw [discovered.sight]
  exact nodup_eraseDups _

theorem inSight_isPrefix (discovered : wired.DiscoveryOrder roots (early ++ late)) :
    wired.inSight roots early <+: early ++ late := by
  rw [discovered.sight, inSight_append]
  exact List.prefix_append _ _

/-- The nodes that at most a number of links separate from the roots are listed first. -/
theorem exists_prefix_within (discovered : wired.DiscoveryOrder roots order) (links : Nat) :
    ∃ near, near <+: order ∧ ∀ id, id ∈ near ↔ wired.WithinLinks roots links id := by
  induction links with
  | zero =>
      refine ⟨wired.inSight roots [], ?_, fun id => ?_⟩
      · rw [← List.nil_append order] at discovered ⊢
        exact discovered.inSight_isPrefix
      · simp [mem_inSight, WithinLinks]
  | succ links induction =>
      obtain ⟨near, ⟨far, rfl⟩, within⟩ := induction
      refine ⟨_, discovered.inSight_isPrefix, ?_⟩
      intro id
      rw [mem_inSight, WithinLinks]
      simp only [within, and_comm]

theorem eq_nil_of_length_le (discovered : wired.DiscoveryOrder roots (early ++ late))
    (short : (wired.inSight roots early).length ≤ early.length) : late = [] := by
  have inside := List.prefix_of_prefix_length_le discovered.inSight_isPrefix
    (List.prefix_append early late) short
  have closed : ∀ id, wired.Feeds roots id → id ∈ early := by
    rintro id ⟨root, listed, present, path⟩
    induction path using Relation.ReflTransGen.head_induction_on with
    | refl => exact inside.subset (mem_inSight.2 (.inl (List.mem_filter.2 ⟨listed, present⟩)))
    | head leads _ member => exact inside.subset (mem_inSight.2 (.inr ⟨_, member, leads⟩))
  apply List.eq_nil_iff_forall_not_mem.2
  intro id member
  have feeds := (discovered.members id).1 (List.mem_append_right _ member)
  exact (List.nodup_append.1 discovered.nodup).2.2 id (closed id feeds) id member rfl

/-- Two such lists that start alike go on alike: what the start brings into sight is a longer
common start, unless both end there. -/
theorem eq_of_same_start {rest : List NodeId}
    (left : wired.DiscoveryOrder roots (early ++ late))
    (right : wired.DiscoveryOrder roots (early ++ rest)) : late = rest := by
  induction size : late.length using Nat.strongRecOn generalizing early late rest with
  | ind size induction =>
      by_cases short : (wired.inSight roots early).length ≤ early.length
      · rw [left.eq_nil_of_length_le short, right.eq_nil_of_length_le short]
      · obtain ⟨found, grown⟩ := List.prefix_of_prefix_length_le (List.prefix_append early late)
          left.inSight_isPrefix (Nat.le_of_lt (Nat.lt_of_not_le short))
        obtain ⟨later, splitLeft⟩ := left.inSight_isPrefix
        obtain ⟨last, splitRight⟩ := right.inSight_isPrefix
        rw [← grown, List.append_assoc, List.append_cancel_left_eq] at splitLeft splitRight
        subst splitLeft
        subst splitRight
        have nonempty : 0 < found.length := by
          rw [← grown, List.length_append] at short
          omega
        rw [← List.append_assoc] at left right
        rw [List.length_append] at size
        rw [induction later.length (by omega) left right rfl]

theorem unique (left : wired.DiscoveryOrder roots order)
    (right : wired.DiscoveryOrder roots other) : order = other := by
  rw [← List.nil_append order] at left
  rw [← List.nil_append other] at right
  exact eq_of_same_start left right

end DiscoveryOrder

end Wired

end MaterialGraph
