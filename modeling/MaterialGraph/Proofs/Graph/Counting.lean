import MaterialGraph.Proofs.Graph.Scheduling
import Mathlib.Algebra.BigOperators.Group.List.Basic

/-!
Counting links one at a time. A round takes up the nodes of its frontier in order and counts the
links into each of them, and a node whose last link is counted joins the next frontier. At every
moment of this loop the counters say how many links are not yet counted. A link is therefore never
counted against a counter of zero, no node joins a frontier twice, and there are no more rounds than
nodes that feed the roots.
-/

set_option autoImplicit false

namespace MaterialGraph

namespace Wired

/-- A moment of the loop that peels nodes off. -/
structure Moment where
  /-- The frontiers of the rounds that are over. -/
  levels : List (List NodeId)
  /-- The nodes of the frontier that were taken up. The last of them is the node at hand. -/
  taken : List NodeId
  /-- The producers of the links into the node at hand that are still to be counted. -/
  pending : List NodeId
  /-- The nodes of the frontier that are still to be taken up. -/
  waiting : List NodeId
  /-- The next frontier, as far as its nodes are known. -/
  freed : List NodeId
  degrees : Degrees

namespace Moment

def entered (moment : Moment) : List NodeId :=
  moment.levels.flatten ++ moment.taken ++ moment.waiting ++ moment.freed

def count (moment : Moment) (producer : NodeId) (pending : List NodeId) : Moment :=
  let released := moment.degrees.release producer
  { moment with
    pending, degrees := released.1
    freed := if released.2 then moment.freed ++ [producer] else moment.freed }

def takeUp (moment : Moment) (consumer : NodeId) (pending waiting : List NodeId) : Moment :=
  { moment with taken := moment.taken ++ [consumer], pending, waiting }

def nextRound (moment : Moment) : Moment :=
  { moment with
    levels := moment.levels ++ [moment.taken], taken := [], waiting := moment.freed, freed := [] }

def verdict (moment : Moment) (reached : List NodeId) : Except Cycle Schedule :=
  if moment.levels.flatten.length < reached.length then
    .error ⟨(moment.degrees.filter fun entry => 0 < entry.2).map Prod.fst⟩
  else .ok ⟨moment.levels, moment.levels.reverse.flatten⟩

theorem entered_count (moment : Moment) (producer : NodeId) (pending : List NodeId) :
    (moment.count producer pending).entered =
      moment.entered ++ if (moment.degrees.release producer).2 then [producer] else [] := by
  unfold count entered
  cases last : (moment.degrees.release producer).2 <;> simp [last]

theorem entered_takeUp {moment : Moment} {consumer : NodeId} {pending waiting : List NodeId}
    (waits : moment.waiting = consumer :: waiting) :
    (moment.takeUp consumer pending waiting).entered = moment.entered := by
  unfold takeUp entered
  simp [waits]

theorem entered_nextRound {moment : Moment} (allTaken : moment.waiting = []) :
    moment.nextRound.entered = moment.entered := by
  unfold nextRound entered
  simp [allTaken]

end Moment

inductive Turn where
  | goesOn (next : Moment)
  | ends
  /-- A link is to be counted, but the counter of its producer is zero already. -/
  | underflows (producer : NodeId)

variable {Target : Type}

/-- Counts the next link into the node at hand. Where none is left, takes up the next node of the
frontier, and where none is left of these either, begins the next round. -/
def turn (wired : Wired Target) (moment : Moment) : Turn :=
  match moment.pending, moment.waiting with
  | producer :: pending, _ =>
      if Table.find? producer moment.degrees = some 0 then .underflows producer
      else .goesOn (moment.count producer pending)
  | [], consumer :: waiting => .goesOn (moment.takeUp consumer (wired.incoming consumer) waiting)
  | [], [] => if moment.taken = [] then .ends else .goesOn moment.nextRound

def Follows (wired : Wired Target) (before after : Moment) : Prop :=
  wired.turn before = .goesOn after

def opening (wired : Wired Target) (roots : List NodeId) : Moment :=
  let degrees := wired.degrees (wired.reachable roots)
  { levels := [], taken := [], pending := []
    waiting := (degrees.filter fun entry => entry.2 = 0).map Prod.fst
    freed := [], degrees }

/-- The loop over the nodes that feed the roots comes to the moment. -/
def Passes (wired : Wired Target) (roots : List NodeId) (moment : Moment) : Prop :=
  Relation.ReflTransGen wired.Follows (wired.opening roots) moment

/-- How many accepted links of a node to nodes that feed the roots are not yet counted: those to
nodes that were not taken up, and those into the node at hand that are still pending. -/
def uncounted (wired : Wired Target) (roots : List NodeId) (moment : Moment) (id : NodeId) : Nat :=
  wired.openLinks (wired.reachable roots) (moment.levels.flatten ++ moment.taken) id +
    moment.pending.count id

theorem Follows.cases {wired : Wired Target} {before after : Moment}
    (follows : wired.Follows before after) :
    (∃ producer pending, before.pending = producer :: pending ∧
      after = before.count producer pending) ∨
    (∃ consumer waiting, before.pending = [] ∧ before.waiting = consumer :: waiting ∧
      after = before.takeUp consumer (wired.incoming consumer) waiting) ∨
    (before.pending = [] ∧ before.waiting = [] ∧ before.taken ≠ [] ∧ after = before.nextRound) := by
  unfold Follows turn at follows
  cases pends : before.pending with
  | cons producer pending =>
      simp only [pends] at follows
      split at follows
      · cases follows
      · cases follows
        exact .inl ⟨producer, pending, rfl, rfl⟩
  | nil =>
      cases waits : before.waiting with
      | cons consumer waiting =>
          simp only [pends, waits] at follows
          cases follows
          exact .inr (.inl ⟨consumer, waiting, rfl, rfl, rfl⟩)
      | nil =>
          simp only [pends, waits] at follows
          split at follows
          · cases follows
          · rename_i taken
            cases follows
            exact .inr (.inr ⟨rfl, rfl, taken, rfl⟩)

theorem eq_nil_of_turn_eq_ends {wired : Wired Target} {moment : Moment}
    (ended : wired.turn moment = .ends) :
    moment.pending = [] ∧ moment.waiting = [] ∧ moment.taken = [] := by
  unfold turn at ended
  split at ended
  · split at ended <;> cases ended
  · cases ended
  · rename_i counted allTaken
    split at ended
    · rename_i untaken
      exact ⟨counted, allTaken, untaken⟩
    · cases ended

theorem Follows.entered_isPrefix {wired : Wired Target} {before after : Moment}
    (follows : wired.Follows before after) : before.entered <+: after.entered := by
  obtain ⟨producer, pending, _, rfl⟩ | ⟨consumer, waiting, _, waits, rfl⟩ | ⟨_, allTaken, _, rfl⟩ :=
    follows.cases
  · rw [Moment.entered_count]
    exact List.prefix_append _ _
  · rw [Moment.entered_takeUp waits]
  · rw [Moment.entered_nextRound allTaken]

theorem openLinks_snoc_add_count (wired : Wired Target) {within processed : List NodeId}
    {consumer : NodeId} (inside : consumer ∈ within) (fresh : consumer ∉ processed) (id : NodeId) :
    wired.openLinks within (processed ++ [consumer]) id + (wired.incoming consumer).count id =
      wired.openLinks within processed id := by
  have single : wired.producers [consumer] = wired.incoming consumer := List.flatMap_singleton ..
  rw [← single]
  apply openLinks_append_add_count wired _ _ (List.nodup_singleton consumer)
  · simpa using inside
  · simpa using fresh

/-- The counters are exact, and the nodes that joined a frontier are those with no link left. -/
structure Ledger (wired : Wired Target) (roots : List NodeId) (moment : Moment) : Prop where
  keys : moment.degrees.map Prod.fst = wired.reachable roots
  distinct : moment.entered.Nodup
  inside : ∀ id ∈ moment.entered, id ∈ wired.reachable roots
  nonempty : ∀ level ∈ moment.levels, level ≠ []
  atHand : moment.pending <:+ moment.taken.getLast?.elim [] wired.incoming
  counts : ∀ id ∈ wired.reachable roots, moment.degrees.left id = wired.uncounted roots moment id
  free : ∀ id ∈ wired.reachable roots, id ∈ moment.entered ↔ moment.degrees.left id = 0
  begun : moment.taken = [] → moment.freed = []

namespace Ledger

variable {wired : Wired Target} {roots : List NodeId} {moment next : Moment}

theorem start (wired : Wired Target) (roots : List NodeId) :
    wired.Ledger roots (wired.opening roots) := by
  have peeling := Peeling.start wired (nodup_reachable wired roots)
  have entered : (wired.opening roots).entered =
      ((wired.degrees (wired.reachable roots)).filter fun entry => entry.2 = 0).map Prod.fst := by
    simp [opening, Moment.entered]
  constructor
  case keys => exact peeling.keys
  case distinct =>
    rw [entered]
    exact peeling.distinct
  case inside =>
    rw [entered]
    exact peeling.inside
  case nonempty => exact fun level listed => absurd listed List.not_mem_nil
  case atHand => exact List.nil_suffix
  case counts => exact peeling.counts
  case free =>
    rw [entered]
    exact peeling.free
  case begun => exact fun _ => rfl

theorem degrees_eq (ledger : wired.Ledger roots moment) :
    moment.degrees =
      (wired.reachable roots).map fun id => (id, wired.uncounted roots moment id) := by
  have distinct : (moment.degrees.map Prod.fst).Nodup :=
    ledger.keys ▸ nodup_reachable wired roots
  rw [← ledger.keys, List.map_map, eq_comm, map_eq_self_iff]
  rintro ⟨id, degree⟩ listed
  have reached : id ∈ wired.reachable roots := ledger.keys ▸ List.mem_map_of_mem listed
  have value : moment.degrees.left id = degree := by
    rw [Degrees.left, Table.find?_of_mem distinct listed, Option.getD_some]
  rw [ledger.counts id reached] at value
  rw [Function.comp_apply, value]

theorem mem_reachable_of_mem_pending (ledger : wired.Ledger roots moment) {producer : NodeId}
    (pends : producer ∈ moment.pending) : producer ∈ wired.reachable roots := by
  have listed := ledger.atHand.subset pends
  cases last : moment.taken.getLast? with
  | none => simp [last] at listed
  | some consumer =>
      rw [last] at listed
      have joined : consumer ∈ moment.entered := by
        have taken := List.mem_of_getLast? last
        simp [Moment.entered, taken]
      have feeds := mem_reachable.1 (ledger.inside consumer joined)
      exact mem_reachable.2 (feeds.of_leads (mem_incoming.1 listed))

section Counting

variable {producer : NodeId} {pending : List NodeId}

/-- Where a link is to be counted, the counter of its producer is not zero. -/
theorem exists_counter (ledger : wired.Ledger roots moment)
    (pends : moment.pending = producer :: pending) :
    ∃ left, Table.find? producer moment.degrees = some (left + 1) := by
  have reached := ledger.mem_reachable_of_mem_pending (pends ▸ List.mem_cons_self)
  refine ⟨wired.openLinks (wired.reachable roots) (moment.levels.flatten ++ moment.taken) producer +
    pending.count producer, ?_⟩
  rw [ledger.degrees_eq, Table.find?_map_pair (wired.uncounted roots moment), if_pos reached,
    uncounted, pends, List.count_cons_self, Nat.add_assoc]

theorem left_pos (ledger : wired.Ledger roots moment)
    (pends : moment.pending = producer :: pending) : 0 < moment.degrees.left producer := by
  obtain ⟨left, found⟩ := ledger.exists_counter pends
  rw [Degrees.left, found]
  exact Nat.succ_pos left

theorem turn_ne_underflows (ledger : wired.Ledger roots moment) (id : NodeId) :
    wired.turn moment ≠ .underflows id := by
  unfold turn
  cases pends : moment.pending with
  | cons first rest =>
      obtain ⟨left, found⟩ := ledger.exists_counter pends
      simp [found]
  | nil =>
      cases moment.waiting with
      | cons consumer waiting => simp
      | nil =>
          simp only
          split <;> simp

theorem count (ledger : wired.Ledger roots moment)
    (pends : moment.pending = producer :: pending) :
    wired.Ledger roots (moment.count producer pending) := by
  have positive := ledger.left_pos pends
  have reached := ledger.mem_reachable_of_mem_pending (pends ▸ List.mem_cons_self)
  -- The producer has a link left, so it is in no frontier yet.
  have absent : producer ∉ moment.entered := by
    intro joined
    have zero := (ledger.free producer reached).1 joined
    omega
  have left : ∀ id, (moment.count producer pending).degrees.left id =
      moment.degrees.left id - if producer = id then 1 else 0 :=
    Degrees.left_release moment.degrees producer
  constructor
  case keys =>
    rw [← ledger.keys]
    exact Degrees.keys_release moment.degrees producer
  case distinct =>
    rw [Moment.entered_count]
    split
    · rw [← List.concat_eq_append]
      exact ledger.distinct.concat absent
    · simpa using ledger.distinct
  case inside =>
    intro id joined
    rw [Moment.entered_count] at joined
    rcases List.mem_append.1 joined with before | new
    · exact ledger.inside id before
    · split at new
      · rw [List.mem_singleton.1 new]
        exact reached
      · cases new
  case nonempty => exact ledger.nonempty
  case atHand =>
    have fewer : pending <:+ moment.pending := pends ▸ List.suffix_cons producer pending
    exact fewer.trans ledger.atHand
  case counts =>
    intro id member
    rw [left, ledger.counts id member, uncounted, pends, List.count_cons]
    by_cases same : producer = id <;> simp [same, uncounted, Moment.count]
  case free =>
    intro id member
    rw [Moment.entered_count, List.mem_append, ledger.free id member, left, Degrees.release_last]
    by_cases same : producer = id
    · subst same
      by_cases last : moment.degrees.left producer = 1 <;> simp [last]
      omega
    · have other : ¬id = producer := fun equal => same equal.symm
      by_cases last : moment.degrees.left producer = 1 <;> simp [last, same, other]
  case begun =>
    intro (untaken : moment.taken = [])
    have nothing := ledger.atHand
    simp [untaken, pends] at nothing

end Counting

theorem of_same (ledger : wired.Ledger roots moment) (degrees : next.degrees = moment.degrees)
    (entered : next.entered = moment.entered)
    (same : ∀ id ∈ wired.reachable roots,
      wired.uncounted roots next id = wired.uncounted roots moment id)
    (nonempty : ∀ level ∈ next.levels, level ≠ [])
    (atHand : next.pending <:+ next.taken.getLast?.elim [] wired.incoming)
    (begun : next.taken = [] → next.freed = []) : wired.Ledger roots next where
  keys := by rw [degrees, ledger.keys]
  distinct := by
    rw [entered]
    exact ledger.distinct
  inside := by
    rw [entered]
    exact ledger.inside
  nonempty := nonempty
  atHand := atHand
  counts := by
    intro id member
    rw [degrees, ledger.counts id member, same id member]
  free := by
    rw [entered, degrees]
    exact ledger.free
  begun := begun

theorem takeUp (ledger : wired.Ledger roots moment) {consumer : NodeId} {waiting : List NodeId}
    (counted : moment.pending = []) (waits : moment.waiting = consumer :: waiting) :
    wired.Ledger roots (moment.takeUp consumer (wired.incoming consumer) waiting) := by
  have joined : consumer ∈ moment.entered := by simp [Moment.entered, waits]
  have fresh : consumer ∉ moment.levels.flatten ++ moment.taken := by
    have distinct := ledger.distinct
    rw [Moment.entered, waits, List.append_assoc] at distinct
    exact fun early => (List.nodup_append.1 distinct).2.2 consumer early consumer (by simp) rfl
  refine ledger.of_same rfl (Moment.entered_takeUp waits) ?_ ledger.nonempty ?_ ?_
  · -- The links into the node are no longer open, but pending.
    intro id _
    have closes := openLinks_snoc_add_count wired (ledger.inside consumer joined) fresh id
    simpa [uncounted, Moment.takeUp, counted] using closes
  · simp [Moment.takeUp]
  · simp [Moment.takeUp]

theorem nextRound (ledger : wired.Ledger roots moment) (counted : moment.pending = [])
    (allTaken : moment.waiting = []) (taken : moment.taken ≠ []) :
    wired.Ledger roots moment.nextRound := by
  refine ledger.of_same rfl (Moment.entered_nextRound allTaken) ?_ ?_ ?_ (fun _ => rfl)
  · intro id _
    simp [uncounted, Moment.nextRound, counted]
  · intro level listed
    rcases List.mem_append.1 listed with before | new
    · exact ledger.nonempty level before
    · rw [List.mem_singleton.1 new]
      exact taken
  · simp [Moment.nextRound, counted]

theorem step (ledger : wired.Ledger roots moment) (follows : wired.Follows moment next) :
    wired.Ledger roots next := by
  obtain ⟨producer, pending, pends, rfl⟩ | ⟨consumer, waiting, counted, waits, rfl⟩ |
    ⟨counted, allTaken, taken, rfl⟩ := follows.cases
  · exact ledger.count pends
  · exact ledger.takeUp counted waits
  · exact ledger.nextRound counted allTaken taken

/-- What the whole loop preserves. -/
theorem of_passes (passes : wired.Passes roots moment) : wired.Ledger roots moment := by
  induction passes with
  | refl => exact start wired roots
  | tail _ follows ledger => exact ledger.step follows

/-- Each round emits a node of its own. -/
theorem length_levels_le (ledger : wired.Ledger roots moment) :
    moment.levels.length ≤ (wired.reachable roots).length := by
  have distinct : moment.levels.flatten.Nodup := by
    have all := ledger.distinct
    simp only [Moment.entered, List.append_assoc] at all
    exact (List.nodup_append.1 all).1
  have inside : moment.levels.flatten ⊆ wired.reachable roots := by
    intro id emitted
    exact ledger.inside id (by simp [Moment.entered, List.mem_flatten.1 emitted])
  calc
    moment.levels.length = (moment.levels.map List.length).length := (List.length_map _).symm
    _ ≤ (moment.levels.map List.length).sum := by
      apply List.length_le_sum_of_one_le
      intro size listed
      obtain ⟨level, member, rfl⟩ := List.mem_map.1 listed
      exact List.length_pos_iff.2 (ledger.nonempty level member)
    _ = moment.levels.flatten.length := List.length_flatten.symm
    _ ≤ (wired.reachable roots).length := (List.subperm_of_subset distinct inside).length_le

/-- From every moment the loop comes to an end: there are only so many rounds, a round takes up its
nodes one after another, and a node has only so many links. -/
theorem exists_end {moment : Moment} (ledger : wired.Ledger roots moment) :
    ∃ last, Relation.ReflTransGen wired.Follows moment last ∧ wired.turn last = .ends := by
  cases turns : wired.turn moment with
  | ends => exact ⟨moment, .refl, turns⟩
  | underflows producer => exact absurd turns (ledger.turn_ne_underflows producer)
  | goesOn next =>
      obtain ⟨last, path, ended⟩ := (ledger.step turns).exists_end
      exact ⟨last, .head turns path, ended⟩
termination_by ((wired.reachable roots).length - moment.levels.length, moment.waiting.length,
  moment.pending.length)
decreasing_by
  obtain ⟨producer, pending, pends, rfl⟩ | ⟨consumer, waiting, _, waits, rfl⟩ | ⟨_, _, _, rfl⟩ :=
    Follows.cases turns
  · apply Prod.Lex.right
    apply Prod.Lex.right
    simp [Moment.count, pends]
  · apply Prod.Lex.right
    apply Prod.Lex.left
    simp [Moment.takeUp, waits]
  · apply Prod.Lex.left
    have bound := (ledger.step turns).length_levels_le
    simp only [Moment.nextRound, List.length_append, List.length_singleton] at bound ⊢
    omega

end Ledger

section Outlook

variable {wired : Wired Target} {roots : List NodeId} {moment next : Moment}

theorem peel_nil (wired : Wired Target) (degrees : Degrees) :
    wired.peel degrees [] = ([], degrees) := by
  rw [peel, if_pos rfl]

theorem peel_eq_round (wired : Wired Target) (degrees : Degrees) (frontier : List NodeId) :
    wired.peel degrees frontier =
      let released := degrees.releaseAll (wired.producers frontier)
      let later := wired.peel released.1 released.2
      ((if frontier = [] then [] else [frontier]) ++ later.1, later.2) := by
  by_cases none : frontier = []
  · simp [none, producers, Degrees.releaseAll, peel_nil]
  · rw [peel, if_neg none, if_neg none]
    rfl

/-- What the loop comes to from a moment on: the levels it will have emitted, and the counters it
will leave over. -/
def outlook (wired : Wired Target) (moment : Moment) : List (List NodeId) × Degrees :=
  let frontier := moment.taken ++ moment.waiting
  let released := moment.degrees.releaseAll (moment.pending ++ wired.producers moment.waiting)
  let later := wired.peel released.1 (moment.freed ++ released.2)
  (moment.levels ++ (if frontier = [] then [] else [frontier]) ++ later.1, later.2)

theorem outlook_opening (wired : Wired Target) (roots : List NodeId) :
    wired.outlook (wired.opening roots) = wired.peeled roots := by
  unfold peeled
  rw [peel_eq_round]
  rfl

/-- A turn changes nothing in what the loop comes to. -/
theorem Follows.outlook_eq (follows : wired.Follows moment next) :
    wired.outlook next = wired.outlook moment := by
  obtain ⟨producer, pending, pends, rfl⟩ | ⟨consumer, waiting, counted, waits, rfl⟩ |
    ⟨counted, allTaken, taken, rfl⟩ := follows.cases
  · unfold outlook
    rw [pends, List.cons_append, Degrees.releaseAll]
    cases last : (moment.degrees.release producer).2 <;> simp [Moment.count, last]
  · have produced : wired.producers (consumer :: waiting) =
        wired.incoming consumer ++ wired.producers waiting := List.flatMap_cons
    simp [outlook, Moment.takeUp, counted, waits, produced]
  · -- The freed nodes, peeled off at once so far, are a frontier to be taken up from now on.
    have round := peel_eq_round wired moment.degrees moment.freed
    simp [outlook, Moment.nextRound, counted, allTaken, taken, round, producers, Degrees.releaseAll]

theorem Passes.outlook_eq (passes : wired.Passes roots moment) :
    wired.outlook moment = wired.peeled roots := by
  induction passes with
  | refl => exact outlook_opening wired roots
  | tail _ follows same => rw [follows.outlook_eq, same]

theorem outlook_of_ends (ledger : wired.Ledger roots moment) (ended : wired.turn moment = .ends) :
    wired.outlook moment = (moment.levels, moment.degrees) := by
  obtain ⟨counted, allTaken, untaken⟩ := eq_nil_of_turn_eq_ends ended
  simp [outlook, counted, allTaken, untaken, ledger.begun untaken, producers, Degrees.releaseAll,
    peel_nil]

end Outlook

/-- The loop that schedules counts links safely. At every moment there is one counter for each node
that feeds the roots, and it says how many accepted links of the node to such nodes are not yet
counted; where a link is to be counted, the counter of its producer is at least one, so none
underflows; and no node joins a frontier twice, for those that joined stay listed. The loop ends
after at most as many rounds as nodes feed the roots, and the schedule is what it ends with. -/
theorem schedule_counters_exact (wired : Wired Target) (roots : List NodeId) :
    (∀ moment, wired.Passes roots moment →
      moment.degrees =
        (wired.reachable roots).map (fun id => (id, wired.uncounted roots moment id)) ∧
      moment.pending <:+ moment.taken.getLast?.elim [] wired.incoming ∧
      (∀ producer pending, moment.pending = producer :: pending →
        ∃ left, Table.find? producer moment.degrees = some (left + 1)) ∧
      (∀ producer, wired.turn moment ≠ .underflows producer) ∧
      moment.entered.Nodup ∧
      (∀ id ∈ moment.entered, id ∈ wired.reachable roots) ∧
      ∀ next, wired.Follows moment next → moment.entered <+: next.entered) ∧
    ∃ last, wired.Passes roots last ∧ wired.turn last = .ends ∧
      last.levels.length ≤ (wired.reachable roots).length ∧
      wired.schedule roots = last.verdict (wired.reachable roots) := by
  constructor
  · intro moment passes
    have ledger := Ledger.of_passes passes
    exact ⟨ledger.degrees_eq, ledger.atHand,
      fun producer pending pends => ledger.exists_counter pends, ledger.turn_ne_underflows,
      ledger.distinct, ledger.inside, fun next follows => follows.entered_isPrefix⟩
  · obtain ⟨last, passes, ended⟩ := (Ledger.start wired roots).exists_end
    have ledger := Ledger.of_passes passes
    refine ⟨last, passes, ended, ledger.length_levels_le, ?_⟩
    have result : wired.peeled roots = (last.levels, last.degrees) := by
      rw [← Passes.outlook_eq passes, outlook_of_ends ledger ended]
    rw [schedule_eq, result]
    rfl

end Wired

end MaterialGraph
