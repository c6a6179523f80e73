import MaterialGraph.Graph.Schedule
import Mathlib.Data.List.Nodup
import Mathlib.Logic.Relation

/-!
Paths of accepted links. The breadth-first search against the links finds exactly the nodes from
which a path leads to a known root, each of them once.
-/

set_option autoImplicit false

namespace MaterialGraph

theorem mem_seen_or_mem_newcomers (seen : List NodeId) {candidates : List NodeId} {id : NodeId}
    (member : id ∈ candidates) : id ∈ seen ∨ id ∈ newcomers seen candidates := by
  induction candidates generalizing seen with
  | nil => simp at member
  | cons first rest ih =>
      unfold newcomers
      rcases List.mem_cons.1 member with same | later
      · subst same
        split
        · rename_i known
          exact Or.inl (by simpa using known)
        · exact Or.inr List.mem_cons_self
      · split
        · exact ih seen later
        · rcases ih (seen ++ [first]) later with known | found
          · rcases List.mem_append.1 known with old | new
            · exact Or.inl old
            · have same : id = first := by simpa using new
              exact Or.inr (by simp [same])
          · exact Or.inr (List.mem_cons_of_mem _ found)

theorem nodup_append_newcomers {seen : List NodeId} (distinct : seen.Nodup)
    (candidates : List NodeId) : (seen ++ newcomers seen candidates).Nodup := by
  induction candidates generalizing seen with
  | nil => simpa [newcomers] using distinct
  | cons first rest ih =>
      unfold newcomers
      split
      · exact ih distinct
      · rename_i fresh
        have absent : first ∉ seen := by simpa using fresh
        have extended : (seen ++ [first]).Nodup :=
          List.nodup_append.2 ⟨distinct, List.nodup_singleton first, by
            intro old oldMember new newMember same
            have newEq : new = first := by simpa using newMember
            exact absent (newEq ▸ same ▸ oldMember)⟩
        simpa using ih extended

namespace Wired

variable {Target : Type}

def Leads (wired : Wired Target) (producer consumer : NodeId) : Prop :=
  ∃ link ∈ wired.accepted, link.startNode = producer ∧ link.endNode = consumer

/-- A path of accepted links, which may be empty, leads from the node to a root that exists. -/
def Feeds (wired : Wired Target) (roots : List NodeId) (id : NodeId) : Prop :=
  ∃ root ∈ roots, wired.graph.contains root = true ∧ Relation.ReflTransGen wired.Leads id root

/-- A node that feeds the roots lies on a directed cycle. Every node of such a cycle feeds them. -/
def HasCycle (wired : Wired Target) (roots : List NodeId) : Prop :=
  ∃ id, wired.Feeds roots id ∧ Relation.TransGen wired.Leads id id

theorem mem_incoming {wired : Wired Target} {producer consumer : NodeId} :
    producer ∈ wired.incoming consumer ↔ wired.Leads producer consumer := by
  constructor
  · intro member
    obtain ⟨link, accepted, starts⟩ := List.mem_map.1 member
    obtain ⟨accepted, ends⟩ := List.mem_filter.1 accepted
    exact ⟨link, accepted, starts, by simpa using ends⟩
  · rintro ⟨link, accepted, starts, ends⟩
    exact List.mem_map.2 ⟨link, List.mem_filter.2 ⟨accepted, by simpa using ends⟩, starts⟩

theorem Feeds.of_leads {wired : Wired Target} {roots : List NodeId} {producer consumer : NodeId}
    (feeds : wired.Feeds roots consumer) (leads : wired.Leads producer consumer) :
    wired.Feeds roots producer := by
  obtain ⟨root, member, present, path⟩ := feeds
  exact ⟨root, member, present, Relation.ReflTransGen.head leads path⟩

theorem Feeds.of_path {wired : Wired Target} {roots : List NodeId} {producer consumer : NodeId}
    (feeds : wired.Feeds roots consumer)
    (path : Relation.ReflTransGen wired.Leads producer consumer) :
    wired.Feeds roots producer := by
  obtain ⟨root, member, present, rest⟩ := feeds
  exact ⟨root, member, present, path.trans rest⟩

/-- The state of the search: what was discovered feeds the roots, the roots were discovered, and
so was every producer of a node that is no longer pending. -/
structure Search (wired : Wired Target) (roots seen pending : List NodeId) : Prop where
  distinct : seen.Nodup
  pendingSeen : ∀ id ∈ pending, id ∈ seen
  feeds : ∀ id ∈ seen, wired.Feeds roots id
  rootsSeen : ∀ root ∈ roots, wired.graph.contains root = true → root ∈ seen
  closed : ∀ id ∈ seen, id ∉ pending → ∀ producer, wired.Leads producer id → producer ∈ seen

namespace Search

theorem start (wired : Wired Target) (roots : List NodeId) :
    wired.Search roots (newcomers [] (roots.filter wired.graph.contains))
      (newcomers [] (roots.filter wired.graph.contains)) where
  distinct := by
    simpa using nodup_append_newcomers List.nodup_nil (roots.filter wired.graph.contains)
  pendingSeen := fun _ member => member
  feeds := by
    intro id member
    obtain ⟨known, present⟩ := List.mem_filter.1 (mem_of_mem_newcomers member).1
    exact ⟨id, known, present, Relation.ReflTransGen.refl⟩
  rootsSeen := by
    intro root member present
    have known : root ∈ roots.filter wired.graph.contains := List.mem_filter.2 ⟨member, present⟩
    rcases mem_seen_or_mem_newcomers [] known with impossible | found
    · simp at impossible
    · exact found
  closed := fun _ seen notPending => absurd seen notPending

theorem step {wired : Wired Target} {roots seen rest : List NodeId} {current : NodeId}
    (search : wired.Search roots seen (current :: rest)) :
    wired.Search roots (seen ++ newcomers seen (wired.incoming current))
      (rest ++ newcomers seen (wired.incoming current)) where
  distinct := nodup_append_newcomers search.distinct _
  pendingSeen := by
    intro id member
    rcases List.mem_append.1 member with waiting | found
    · exact List.mem_append_left _ (search.pendingSeen id (List.mem_cons_of_mem _ waiting))
    · exact List.mem_append_right _ found
  feeds := by
    intro id member
    rcases List.mem_append.1 member with old | found
    · exact search.feeds id old
    · have currentFeeds := search.feeds current (search.pendingSeen current List.mem_cons_self)
      exact currentFeeds.of_leads (mem_incoming.1 (mem_of_mem_newcomers found).1)
  rootsSeen := fun root member present =>
    List.mem_append_left _ (search.rootsSeen root member present)
  closed := by
    intro id member notPending producer leads
    rcases List.mem_append.1 member with old | found
    · by_cases same : id = current
      · -- The producers of the node just looked at are known or newcomers.
        subst same
        exact List.mem_append.2 (mem_seen_or_mem_newcomers seen (mem_incoming.2 leads))
      · refine List.mem_append_left _ (search.closed id old ?_ producer leads)
        intro waiting
        rcases List.mem_cons.1 waiting with equal | later
        · exact same equal
        · exact notPending (List.mem_append_left _ later)
    · exact absurd (List.mem_append_right _ found) notPending

theorem run {wired : Wired Target} {roots seen pending : List NodeId}
    (search : wired.Search roots seen pending) :
    wired.Search roots (wired.explore seen pending) [] := by
  fun_induction explore wired seen pending with
  | case1 seen => exact search
  | case2 seen current rest found ih => exact ih search.step

end Search

theorem search_reachable (wired : Wired Target) (roots : List NodeId) :
    wired.Search roots (wired.reachable roots) [] :=
  (Search.start wired roots).run

theorem nodup_reachable (wired : Wired Target) (roots : List NodeId) :
    (wired.reachable roots).Nodup :=
  (search_reachable wired roots).distinct

/-- The search finds exactly the nodes that feed the roots. -/
theorem mem_reachable {wired : Wired Target} {roots : List NodeId} {id : NodeId} :
    id ∈ wired.reachable roots ↔ wired.Feeds roots id := by
  have search := search_reachable wired roots
  constructor
  · exact search.feeds id
  · rintro ⟨root, member, present, path⟩
    induction path using Relation.ReflTransGen.head_induction_on with
    | refl => exact search.rootsSeen root member present
    | head leads _ ih => exact search.closed _ ih (by simp) _ leads

instance (wired : Wired Target) (roots : List NodeId) : DecidablePred (wired.Feeds roots) :=
  fun _ => decidable_of_iff _ mem_reachable

theorem feeds_iff_exists_root {wired : Wired Target} {roots : List NodeId} {id : NodeId} :
    wired.Feeds roots id ↔ ∃ root ∈ roots, wired.Feeds [root] id := by
  simp [Feeds]

end Wired

end MaterialGraph
