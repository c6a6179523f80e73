import MaterialGraph.Graph.Wiring

/-!
Scheduling. The nodes that feed the roots are found breadth first, against the links. They are
then peeled off from the sinks: a node joins the next level when its last link to a scheduled
consumer has been counted. What a cycle holds back is never peeled off and is reported.
-/

set_option autoImplicit false

namespace MaterialGraph

/-- Levels of nodes, sinks first, and the order that evaluates producers first. -/
structure Schedule where
  levels : List (List NodeId)
  order : List NodeId
deriving DecidableEq, Repr

namespace Schedule

def position? (schedule : Schedule) (id : NodeId) : Option Nat := schedule.order.idxOf? id

def contains (schedule : Schedule) (id : NodeId) : Bool := schedule.order.contains id

end Schedule

/-- The nodes a cycle keeps from being scheduled. -/
structure Cycle where
  unscheduled : List NodeId
deriving DecidableEq, Repr

namespace Cycle

def message (cycle : Cycle) : String :=
  "Graph contains a cycle through " ++ toString cycle.unscheduled.length ++ " node(s): [" ++
    String.intercalate ", "
      (cycle.unscheduled.map fun id => "NodeId(" ++ toString id.toNat ++ ")") ++ "]"

end Cycle

/-- The members of a list that are not in `seen`, each once, in order of first occurrence. -/
def newcomers (seen : List NodeId) : List NodeId → List NodeId
  | [] => []
  | id :: rest =>
      if seen.contains id then newcomers seen rest else id :: newcomers (seen ++ [id]) rest

theorem mem_of_mem_newcomers {seen candidates : List NodeId} {id : NodeId}
    (member : id ∈ newcomers seen candidates) : id ∈ candidates ∧ id ∉ seen := by
  induction candidates generalizing seen with
  | nil => simp [newcomers] at member
  | cons first rest induction =>
      unfold newcomers at member
      split at member
      · have found := induction member
        exact ⟨List.mem_cons_of_mem _ found.1, found.2⟩
      · rename_i fresh
        rcases List.mem_cons.1 member with equal | later
        · subst equal
          exact ⟨List.mem_cons_self, by simpa using fresh⟩
        · have found := induction later
          exact ⟨List.mem_cons_of_mem _ found.1,
            fun earlier => found.2 (List.mem_append_left _ earlier)⟩

namespace Wired

variable {Target : Type}

/-- How many accepted links start at a node not yet seen. -/
def unseenLinks (wired : Wired Target) (seen : List NodeId) : Nat :=
  (wired.accepted.filter fun link => !seen.contains link.startNode).length

theorem unseenLinks_snoc_lt (wired : Wired Target) {seen : List NodeId} {link : Link}
    (accepted : link ∈ wired.accepted) (fresh : link.startNode ∉ seen) :
    wired.unseenLinks (seen ++ [link.startNode]) < wired.unseenLinks seen := by
  have split : wired.accepted.filter
      (fun other => !(seen ++ [link.startNode]).contains other.startNode) =
      (wired.accepted.filter fun other => !seen.contains other.startNode).filter
        (fun other => other.startNode ≠ link.startNode) := by
    rw [List.filter_filter]
    congr 1
    funext other
    simp [Bool.and_comm]
  unfold unseenLinks
  rw [split]
  apply List.length_filter_lt_length_iff_exists.2
  exact ⟨link, List.mem_filter.2 ⟨accepted, by simpa using fresh⟩, by simp⟩

/-- Each newcomer takes at least one link with it. -/
theorem unseenLinks_newcomers (wired : Wired Target) (seen : List NodeId) {candidates : List NodeId}
    (starts : ∀ id ∈ candidates, ∃ link ∈ wired.accepted, link.startNode = id) :
    wired.unseenLinks (seen ++ newcomers seen candidates) + (newcomers seen candidates).length ≤
      wired.unseenLinks seen := by
  induction candidates generalizing seen with
  | nil => simp [newcomers]
  | cons id rest induction =>
      have later := fun other member => starts other (List.mem_cons_of_mem id member)
      unfold newcomers
      split
      · exact induction seen later
      · rename_i fresh
        obtain ⟨link, accepted, rfl⟩ := starts id List.mem_cons_self
        have fewer := wired.unseenLinks_snoc_lt accepted (by simpa using fresh)
        have bound := induction (seen ++ [link.startNode]) later
        rw [List.append_assoc] at bound
        simp only [List.singleton_append, List.length_cons] at bound ⊢
        omega

theorem exists_link_of_mem_incoming (wired : Wired Target) (id producer : NodeId)
    (member : producer ∈ wired.incoming id) :
    ∃ link ∈ wired.accepted, link.startNode = producer := by
  obtain ⟨link, listed, starts⟩ := List.mem_map.1 member
  exact ⟨link, (List.mem_filter.1 listed).1, starts⟩

/-- Breadth-first search against the links: `seen` lists what was discovered, of which the
producers of `pending` are still to be looked at. -/
def explore (wired : Wired Target) (seen pending : List NodeId) : List NodeId :=
  match pending with
  | [] => seen
  | current :: rest =>
      let found := newcomers seen (wired.incoming current)
      explore wired (seen ++ found) (rest ++ found)
termination_by wired.unseenLinks seen + pending.length
decreasing_by
  have bound := wired.unseenLinks_newcomers seen fun producer =>
    wired.exists_link_of_mem_incoming current producer
  simp only [List.length_append, List.length_cons]
  omega

/-- The nodes that feed any of the known roots, in order of discovery. -/
def reachable (wired : Wired Target) (roots : List NodeId) : List NodeId :=
  let known := newcomers [] (roots.filter wired.graph.contains)
  wired.explore known known

/-- For each node, how many of its links to reachable consumers are not yet counted. -/
abbrev Degrees := List (NodeId × Nat)

namespace Degrees

def total : Degrees → Nat
  | [] => 0
  | (_, degree) :: rest => degree + total rest

/-- Counts one link of a producer, and says whether it was the last. -/
def release : Degrees → NodeId → Degrees × Bool
  | [], _ => ([], false)
  | (id, degree) :: rest, producer =>
      if id = producer then
        match degree with
        | 0 => ((id, 0) :: rest, false)
        | left + 1 => ((id, left) :: rest, left = 0)
      else
        let (after, last) := release rest producer
        ((id, degree) :: after, last)

theorem total_release (degrees : Degrees) (producer : NodeId) :
    (release degrees producer).1.total + (if (release degrees producer).2 then 1 else 0) ≤
      degrees.total := by
  induction degrees with
  | nil => simp [release, total]
  | cons first rest induction =>
      obtain ⟨id, degree⟩ := first
      unfold release
      split
      · cases degree with
        | zero => simp [total]
        | succ left =>
            simp only [total]
            split <;> omega
      · simp only [total]
        omega

/-- Counts one link of each listed producer; also lists those of which it was the last. -/
def releaseAll : Degrees → List NodeId → Degrees × List NodeId
  | degrees, [] => (degrees, [])
  | degrees, producer :: rest =>
      let (after, last) := degrees.release producer
      let (final, freed) := releaseAll after rest
      (final, if last then producer :: freed else freed)

theorem total_releaseAll (degrees : Degrees) (producers : List NodeId) :
    (degrees.releaseAll producers).1.total + (degrees.releaseAll producers).2.length ≤
      degrees.total := by
  induction producers generalizing degrees with
  | nil => simp [releaseAll]
  | cons producer rest induction =>
      have first := total_release degrees producer
      have later := induction (degrees.release producer).1
      simp only [releaseAll]
      cases last : (degrees.release producer).2 <;> simp [last] at first ⊢ <;> omega

end Degrees

def degrees (wired : Wired Target) (reachable : List NodeId) : Degrees :=
  reachable.map fun id =>
    (id, ((wired.outgoing id).filter reachable.contains).length)

/-- The producers of a level, one for each link into it. -/
def producers (wired : Wired Target) (level : List NodeId) : List NodeId :=
  level.flatMap wired.incoming

/-- Peels levels off until no node is free; returns them with the degrees left over. -/
def peel (wired : Wired Target) (degrees : Degrees) (frontier : List NodeId) :
    List (List NodeId) × Degrees :=
  if frontier = [] then ([], degrees)
  else
    let released := degrees.releaseAll (wired.producers frontier)
    let (levels, left) := peel wired released.1 released.2
    (frontier :: levels, left)
termination_by degrees.total + frontier.length
decreasing_by
  rename_i frontierNonempty
  have bound := Degrees.total_releaseAll degrees (wired.producers frontier)
  have waiting := List.length_pos_iff.2 frontierNonempty
  omega

/-- Orders the nodes that feed the roots, producers first. -/
def schedule (wired : Wired Target) (roots : List NodeId) : Except Cycle Schedule :=
  let reachable := wired.reachable roots
  let degrees := wired.degrees reachable
  let free := (degrees.filter fun entry => entry.2 = 0).map Prod.fst
  let (levels, left) := wired.peel degrees free
  if levels.flatten.length < reachable.length then
    .error ⟨(left.filter fun entry => 0 < entry.2).map Prod.fst⟩
  else .ok ⟨levels, levels.reverse.flatten⟩

end Wired

end MaterialGraph
