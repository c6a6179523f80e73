import MaterialGraph.Proofs.Lowering.Visits
import Mathlib.Logic.Relation

/-!
How visits come about. A body is lowered from a place in the list of expressions on; at every step
between two nodes, what was made since then is accounted for, by what is remembered of the body and
by the visits of its calls. A node is remembered after all nodes that it needs, so that none is
lowered while it waits for itself.
-/

set_option autoImplicit false

namespace MaterialGraph.Lowering

def Fills (places : List ExprId) (start stop : Nat) : Prop :=
  start ≤ stop ∧ places.Perm (List.range' start (stop - start))

namespace Fills

theorem nil (start : Nat) : Fills [] start start := by
  simp [Fills]

theorem single (start : Nat) : Fills [start] start (start + 1) := by
  simp [Fills]

theorem append {left right : List ExprId} {start middle stop : Nat}
    (early : Fills left start middle) (late : Fills right middle stop) :
    Fills (left ++ right) start stop := by
  refine ⟨Nat.le_trans early.1 late.1, (early.2.append late.2).trans ?_⟩
  obtain ⟨count, rfl⟩ := Nat.exists_eq_add_of_le early.1
  obtain ⟨more, rfl⟩ := Nat.exists_eq_add_of_le late.1
  have first : start + count - start = count := by omega
  have second : start + count + more - (start + count) = more := by omega
  have both : start + count + more - start = count + more := by omega
  rw [first, second, both, List.range'_append_1]

theorem perm {left right : List ExprId} {start stop : Nat} (fills : Fills left start stop)
    (same : right.Perm left) : Fills right start stop :=
  ⟨fills.1, same.trans fills.2⟩

end Fills

def reads (node : MaterialNode) : List SlotId :=
  match node.kind with
  | .textureSample => [Kind.textureSlot, Kind.coordinateSlot, Kind.levelSlot]
  | .math _ => node.inputs.map InputSlot.id
  | .functionOutput _ _ => [0]
  | .call (.resolved callee) => callee.inputs.map Formal.index
  | _ => []

namespace Body

def FedBy (body : Body) (id : NodeId) (slot : SlotId) (producer : NodeId) : Prop :=
  ∃ input binding, (body.wired.node? id).bind (fun node => node.input? slot) = some input ∧
    input.binding = some binding ∧ binding.node = producer

def Needs (body : Body) (id producer : NodeId) : Prop :=
  ∃ node slot, body.wired.node? id = some node ∧ slot ∈ reads node ∧ body.FedBy id slot producer

end Body

/-- Nodes that were remembered after all that they need. -/
inductive Grounded (body : Body) : Table NodeId ExprId → Prop
  | nil : Grounded body []
  | snoc {table : Table NodeId ExprId} {id : NodeId} (value : ExprId) : Grounded body table →
      id ∉ table.keys → (∀ producer, body.Needs id producer → producer ∈ table.keys) →
      Grounded body (table ++ [(id, value)])

/-- What a remembered node needs, directly or not, was remembered before it. -/
theorem Grounded.needs {body : Body} {table : Table NodeId ExprId} (grounded : Grounded body table)
    {id producer : NodeId} (member : id ∈ table.keys)
    (path : Relation.TransGen body.Needs id producer) : producer ∈ table.keys ∧ producer ≠ id := by
  induction grounded generalizing id with
  | nil => cases member
  | @snoc table last value _ fresh earlier induction =>
      simp only [Table.keys, List.map_append, List.mem_append, List.map_cons, List.map_nil,
        List.mem_singleton] at member ⊢
      rcases member with old | rfl
      · obtain ⟨known, different⟩ := induction old path
        exact ⟨Or.inl known, different⟩
      · obtain ⟨next, needs, rest⟩ := Relation.TransGen.head'_iff.1 path
        have known : producer ∈ table.keys := by
          rcases Relation.reflTransGen_iff_eq_or_transGen.1 rest with rfl | path
          · exact earlier _ needs
          · exact (induction (earlier next needs) path).1
        exact ⟨Or.inl known, fun same => fresh (same ▸ known)⟩

structure Remembers (old new : Builder) : Prop extends Retains old new where
  exprs : ExprList.Pushes old.exprs new.exprs

theorem Remembers.refl (builder : Builder) : Remembers builder builder := ⟨.refl _, .refl _⟩

theorem Remembers.trans {first middle last : Builder} (early : Remembers first middle)
    (late : Remembers middle last) : Remembers first last :=
  ⟨early.toRetains.trans late.toRetains, early.exprs.trans late.exprs⟩

structure Bounded (body : Body) (builder : Builder) : Prop where
  arguments : Below body.arguments builder.exprs.length
  nodes : Below builder.nodes builder.exprs.length
  projections : Below builder.projections builder.exprs.length
  literals : Below builder.literals builder.exprs.length

theorem Bounded.mono {body : Body} {builder : Builder} (bounded : Bounded body builder)
    {exprs : ExprList} (longer : builder.exprs.length ≤ exprs.length) :
    Bounded body { builder with exprs } :=
  ⟨bounded.arguments.mono longer, bounded.nodes.mono longer, bounded.projections.mono longer,
    bounded.literals.mono longer⟩

section Bounded

variable {body : Body} {builder : Builder} {id : NodeId} {slot : SlotId}

theorem Bounded.carries (bounded : Bounded body builder) {expr : ExprId}
    (carries : Carries body builder id slot expr) : expr < builder.exprs.length := by
  obtain ⟨value, node, atValue, _, here⟩ := carries
  split at here
  · exact here ▸ bounded.nodes id value atValue
  · exact bounded.projections _ expr here

theorem Bounded.finds (bounded : Bounded body builder) {expr : ExprId}
    (finds : Finds body builder id slot (some expr)) : expr < builder.exprs.length := by
  obtain ⟨input, _, here⟩ := finds
  split at here
  · obtain ⟨other, same, carries⟩ := here
    exact Option.some.inj same ▸ bounded.carries carries
  · obtain ⟨other, same, found⟩ := here
    exact Option.some.inj same ▸ bounded.literals _ other found
  · cases here

theorem Finds.known {value : Option ExprId} (finds : Finds body builder id slot value)
    {producer : NodeId} (fed : body.FedBy id slot producer) : producer ∈ builder.nodes.keys := by
  obtain ⟨input, atSlot, here⟩ := finds
  obtain ⟨other, binding, atSlotToo, bound, rfl⟩ := fed
  cases atSlot.symm.trans atSlotToo
  rw [bound] at here
  obtain ⟨expr, _, made, _, atProducer, _⟩ := here
  exact Table.mem_keys_iff.2 ⟨made, atProducer⟩

end Bounded

/-- A body between two of its nodes, lowered from a place on: what is remembered of it and the
visits of its calls account for everything that was made since. -/
structure Tracked (path : List NodeId) (body : Body) (start : Nat) (builder : Builder)
    (visits : List Visit) : Prop where
  bounded : Bounded body builder
  grounded : Grounded body builder.nodes
  itself : Visit.Faithful builder.exprs visits (Finds body builder) ⟨path, body, builder⟩
  calls : ∀ visit ∈ visits, visit.Faithful builder.exprs visits (Finds visit.body visit.builder)
  called : ∀ visit ∈ visits, ∃ parent ∈ (⟨path, body, builder⟩ : Visit) :: visits, ∃ id,
    parent.Calls id ∧ visit.path = parent.path ++ [id]
  within : ∀ visit ∈ visits, ∃ id ∈ builder.nodes.keys, path ++ [id] <+: visit.path
  distinct : (visits.map Visit.path).Nodup
  fills : Fills (body.owned builder ++ visits.flatMap Visit.owned) start builder.exprs.length

theorem Tracked.ofExprs (path : List NodeId) {body : Body} {exprs : ExprList}
    (arguments : Below body.arguments exprs.length) :
    Tracked path body exprs.length (.ofExprs exprs) [] where
  bounded := ⟨arguments, below_nil, below_nil, below_nil⟩
  grounded := .nil
  itself := by
    refine ⟨⟨List.nodup_nil, List.nodup_nil, List.nodup_nil⟩, ?_, ?_, ?_⟩
    · intro id value found
      cases found
    · intro id slot expr found
      cases found
    · intro id slot expr found
      cases found
  calls := by simp
  called := by simp
  within := by simp
  distinct := List.nodup_nil
  fills := .nil exprs.length

/-- Steps that, where they succeed from a builder, track what they make; of the body's own nodes
they lower only some. -/
def Tracks {Value : Type} (path : List NodeId) (body : Body) (start : Nat) (sees : NodeId → Prop)
    (steps : Lower Value) (builder : Builder) (post : Value → Builder → Prop) : Prop :=
  ∀ visits value next, Tracked path body start builder visits → steps builder = .ok value next →
    ∃ more, Tracked path body start next (visits ++ more) ∧ Remembers builder next ∧
      (∀ id ∈ next.nodes.keys, id ∈ builder.nodes.keys ∨ sees id) ∧ post value next

namespace Tracks

variable {path : List NodeId} {body : Body} {start : Nat} {sees : NodeId → Prop}
  {builder : Builder} {Value Other Item : Type}

theorem pure {value : Value} {post : Value → Builder → Prop}
    (holds : ∀ visits, Tracked path body start builder visits → post value builder) :
    Tracks path body start sees (Pure.pure value) builder post := by
  intro visits other next tracked ran
  cases ran
  refine ⟨[], ?_, .refl builder, fun _ known => Or.inl known, holds visits tracked⟩
  rwa [List.append_nil]

theorem throw (error : LoweringError) {post : Value → Builder → Prop} :
    Tracks path body start sees (MonadExcept.throw error) builder post := by
  intro visits value next _ ran
  cases ran

theorem bind {steps : Lower Value} {rest : Value → Lower Other}
    {middle : Value → Builder → Prop} {post : Other → Builder → Prop}
    (first : Tracks path body start sees steps builder middle)
    (second : ∀ value next, Remembers builder next → middle value next →
      Tracks path body start sees (rest value) next post) :
    Tracks path body start sees (steps >>= rest) builder post := by
  intro visits other last tracked ran
  obtain ⟨value, next, ranFirst, ranRest⟩ := exists_of_bind_eq_ok ran
  obtain ⟨more, trackedNext, remembers, seen, holds⟩ := first visits value next tracked ranFirst
  obtain ⟨others, trackedLast, remembersLast, seenLast, holdsLast⟩ :=
    second value next remembers holds (visits ++ more) other last trackedNext ranRest
  refine ⟨more ++ others, ?_, remembers.trans remembersLast, ?_, holdsLast⟩
  · rwa [← List.append_assoc]
  · intro id member
    rcases seenLast id member with early | late
    · exact seen id early
    · exact Or.inr late

theorem imp {steps : Lower Value} {more : NodeId → Prop} {post weaker : Value → Builder → Prop}
    (tracks : Tracks path body start sees steps builder post) (sight : ∀ id, sees id → more id)
    (holds : ∀ value next, post value next → weaker value next) :
    Tracks path body start more steps builder weaker := by
  intro visits value next tracked ran
  obtain ⟨others, trackedNext, remembers, seen, held⟩ := tracks visits value next tracked ran
  exact ⟨others, trackedNext, remembers, fun id member => (seen id member).imp_right (sight id),
    holds value next held⟩

theorem map {steps : Lower Value} {change : Value → Other} {middle : Value → Builder → Prop}
    {post : Other → Builder → Prop} (first : Tracks path body start sees steps builder middle)
    (holds : ∀ value next, middle value next → post (change value) next) :
    Tracks path body start sees (change <$> steps) builder post := by
  rw [map_eq_pure_bind]
  exact first.bind fun value next _ held => pure fun _ _ => holds value next held

theorem get_bind {rest : Builder → Lower Other} {post : Other → Builder → Prop}
    (second : Tracks path body start sees (rest builder) builder post) :
    Tracks path body start sees (get >>= rest) builder post := second

theorem mapM {steps : Item → Lower Value} {post : Item → Value → Builder → Prop}
    {items : List Item}
    (stable : ∀ item value old new, Remembers old new → post item value old → post item value new)
    (each : ∀ item ∈ items, ∀ next, Tracks path body start sees (steps item) next (post item)) :
    Tracks path body start sees (items.mapM steps) builder
      (fun values next => List.Forall₂ (fun item value => post item value next) items values) := by
  induction items generalizing builder with
  | nil => exact pure fun _ _ => .nil
  | cons item rest induction =>
      rw [List.mapM_cons]
      apply (each item List.mem_cons_self builder).bind
      intro value next _ held
      apply (induction fun other member => each other (List.mem_cons_of_mem _ member)).bind
      intro values last remembers holds
      exact pure fun _ _ => .cons (stable item value next last remembers held) holds

end Tracks

section Records

variable {path : List NodeId} {body : Body} {start : Nat} {builder : Builder}
  {visits : List Visit}

theorem Tracked.calls_extend (tracked : Tracked path body start builder visits) {exprs : ExprList}
    (grown : builder.exprs.Extends exprs) :
    ∀ visit ∈ visits, visit.Faithful exprs visits (Finds visit.body visit.builder) :=
  fun visit member => (tracked.calls visit member).mono grown (List.Subset.refl _)
    fun _ _ _ finds => finds

theorem Tracked.called_retain (tracked : Tracked path body start builder visits) {next : Builder}
    (retains : Retains builder next) :
    ∀ visit ∈ visits, ∃ parent ∈ (⟨path, body, next⟩ : Visit) :: visits, ∃ id,
      parent.Calls id ∧ visit.path = parent.path ++ [id] := by
  intro visit member
  obtain ⟨parent, listed, id, calls, way⟩ := tracked.called visit member
  rcases List.mem_cons.1 listed with rfl | inside
  · exact ⟨_, List.mem_cons_self, id, ⟨retains.mem_keys calls.1, calls.2⟩, way⟩
  · exact ⟨parent, List.mem_cons_of_mem _ inside, id, calls, way⟩

theorem Tracked.push (tracked : Tracked path body start builder visits) {next : Builder}
    {kind : ExprKind} {type : Option ValueType}
    (operands : ∀ operand ∈ kind.operands, operand < builder.exprs.length)
    (exprs : next.exprs = builder.exprs.push kind type) (nodes : next.nodes = builder.nodes)
    (retains : Retains builder next) (bounded : Bounded body next)
    (itself : Visit.Faithful next.exprs visits (Finds body next) ⟨path, body, next⟩)
    (owned : (body.owned next).Perm (builder.exprs.length :: body.owned builder)) :
    Tracked path body start next visits where
  bounded := bounded
  grounded := nodes ▸ tracked.grounded
  itself := itself
  calls := by
    rw [exprs]
    exact tracked.calls_extend (ExprList.Pushes.single operands _).grown
  called := tracked.called_retain retains
  within := nodes ▸ tracked.within
  distinct := tracked.distinct
  fills := by
    have made := (Fills.single builder.exprs.length)
    rw [exprs, ExprList.length_push]
    apply (tracked.fills.append made).perm
    apply (owned.append_right _).trans
    exact (List.perm_append_singleton _ _).symm

/-- A part of a node's value is made once and remembered. -/
theorem tracks_project {id : NodeId} {slot : SlotId} {value : ExprId} {node : MaterialNode}
    {kind : ExprKind} {sees : NodeId → Prop} (atValue : builder.nodes.find? id = some value)
    (atNode : body.wired.node? id = some node) (projected : projection? node slot value = some kind)
    (fresh : builder.projections.find? (id, slot) = none) :
    Tracks path body start sees (do
      let expr ← push kind ((node.output? slot).bind OutputSlot.type)
      modify fun builder =>
        { builder with projections := builder.projections.insert (id, slot) expr }
      pure expr) builder (fun expr next => Carries body next id slot expr) := by
  intro visits expr next tracked ran
  cases ran
  have appended := Table.insert_of_notMem (Table.find?_eq_none_iff.1 fresh) builder.exprs.length
  have operands : ∀ operand ∈ kind.operands, operand < builder.exprs.length := by
    rw [operands_of_projection? projected]
    intro operand member
    cases List.mem_singleton.1 member
    exact tracked.bounded.nodes id value atValue
  have pushes := ExprList.Pushes.single operands ((node.output? slot).bind OutputSlot.type)
  have held := ExprList.holds_push builder.exprs kind ((node.output? slot).bind OutputSlot.type)
  have bounded := tracked.bounded.mono pushes.grown.length_le
  have retains : Retains builder
      { builder with
        exprs := builder.exprs.push kind ((node.output? slot).bind OutputSlot.type)
        projections := builder.projections.insert (id, slot) builder.exprs.length } := by
    refine ⟨List.prefix_rfl, ?_, List.prefix_rfl⟩
    rw [appended]
    exact List.prefix_append _ _
  refine ⟨[], ?_, ⟨retains, pushes⟩, fun _ known => Or.inl known, ?_⟩
  · rw [List.append_nil]
    have itself := tracked.itself.mono pushes.grown (List.Subset.refl _)
      fun _ _ _ finds => finds.grow retains
    refine tracked.push operands rfl rfl retains { bounded with
      projections := bounded.projections.insert (id, slot) held.lt_length }
      ⟨⟨itself.distinct.1, Table.nodup_keys_insert itself.distinct.2.1 _ _, itself.distinct.2.2⟩,
        itself.nodes, ?_, itself.literals⟩ ?_
    · intro other otherSlot expr found
      rcases Table.find?_insert_cases found with ⟨⟨⟩, rfl⟩ | ⟨_, old⟩
      · exact ⟨value, node, kind, atValue, atNode, projected, held⟩
      · exact itself.projections other otherSlot expr old
    · simp only [Body.owned, appended, List.map_append, List.map_cons, List.map_nil,
        List.append_assoc]
      rw [← List.append_assoc, ← List.append_assoc (List.map _ _)]
      exact List.perm_middle
  · refine ⟨value, node, atValue, atNode, ?_⟩
    rw [projected]
    exact Table.find?_insert_self ..

theorem tracks_literalAt {id : NodeId} {slot : SlotId} {node : MaterialNode} {input : InputSlot}
    {value : Literal} (sees : NodeId → Prop) (atNode : body.wired.node? id = some node)
    (atSlot : node.input? slot = some input) (unbound : input.binding = none)
    (given : input.default = some value) :
    Tracks path body start sees (literalAt id slot value) builder
      (fun expr next => next.literals.find? (id, slot) = some expr) := by
  unfold literalAt
  apply Tracks.get_bind
  cases remembered : builder.literals.find? (id, slot) with
  | some expr => exact .pure fun _ _ => remembered
  | none =>
      intro visits expr next tracked ran
      cases ran
      have appended :=
        Table.insert_of_notMem (Table.find?_eq_none_iff.1 remembered) builder.exprs.length
      have operands : ∀ operand ∈ (ExprKind.constant value none).operands,
          operand < builder.exprs.length := by
        intro operand member
        cases member
      have pushes := ExprList.Pushes.single operands (some value.type)
      have held := ExprList.holds_push builder.exprs (.constant value none) (some value.type)
      have bounded := tracked.bounded.mono pushes.grown.length_le
      have retains : Retains builder
          { builder with
            exprs := builder.exprs.push (.constant value none) (some value.type)
            literals := builder.literals.insert (id, slot) builder.exprs.length } := by
        refine ⟨List.prefix_rfl, List.prefix_rfl, ?_⟩
        rw [appended]
        exact List.prefix_append _ _
      refine ⟨[], ?_, ⟨retains, pushes⟩, fun _ known => Or.inl known, Table.find?_insert_self ..⟩
      rw [List.append_nil]
      have itself := tracked.itself.mono pushes.grown (List.Subset.refl _)
        fun _ _ _ finds => finds.grow retains
      refine tracked.push operands rfl rfl retains { bounded with
        literals := bounded.literals.insert (id, slot) held.lt_length }
        ⟨⟨itself.distinct.1, itself.distinct.2.1,
          Table.nodup_keys_insert itself.distinct.2.2 _ _⟩, itself.nodes, itself.projections, ?_⟩ ?_
      · intro other otherSlot expr found
        rcases Table.find?_insert_cases found with ⟨⟨⟩, rfl⟩ | ⟨_, old⟩
        · exact ⟨node, input, value, atNode, atSlot, unbound, given, held⟩
        · exact itself.literals other otherSlot expr old
      · have last := List.perm_append_singleton builder.exprs.length (body.owned builder)
        simpa only [Body.owned, appended, List.map_append, List.map_cons, List.map_nil,
          List.append_assoc] using last

end Records

def Traces (path : List NodeId) (body : Body) (start : Nat) (demand : Demand) : Prop :=
  ∀ id builder, Tracks path body start (Relation.ReflTransGen body.Needs id) (demand id) builder
    (Answered body id)

def Sees (body : Body) (id : NodeId) (slot : SlotId) (other : NodeId) : Prop :=
  ∃ producer, body.FedBy id slot producer ∧ Relation.ReflTransGen body.Needs producer other

section Operands

variable {path : List NodeId} {body : Body} {start : Nat} {builder : Builder} {demand : Demand}

theorem tracks_outputOf (traces : Traces path body start demand) (id : NodeId) (slot : SlotId) :
    Tracks path body start (Relation.ReflTransGen body.Needs id) (outputOf body demand id slot)
      builder (fun expr next => Carries body next id slot expr) := by
  unfold outputOf
  apply (traces id builder).bind
  intro value next _ known
  cases value with
  | none => exact .throw _
  | some value =>
      have atValue : next.nodes.find? id = some value := known
      apply Tracks.get_bind
      cases remembered : next.projections.find? (id, slot) with
      | some expr =>
          apply Tracks.pure
          intro visits tracked
          obtain ⟨other, node, kind, atOther, atNode, projected, _⟩ :=
            tracked.itself.projections id slot expr remembered
          refine ⟨other, node, atOther, atNode, ?_⟩
          rw [projected]
          exact remembered
      | none =>
          cases atNode : body.wired.node? id with
          | none => exact .throw _
          | some node =>
              simp only
              cases projected : projection? node slot value with
              | none =>
                  apply Tracks.pure
                  intro visits tracked
                  refine ⟨value, node, atValue, atNode, ?_⟩
                  rw [projected]
              | some kind => exact tracks_project atValue atNode projected remembered

theorem tracks_inputOf (traces : Traces path body start demand) (id : NodeId) (slot : SlotId) :
    Tracks path body start (Sees body id slot) (inputOf body demand id slot) builder
      (fun value next => Finds body next id slot value) := by
  unfold inputOf
  cases atSlot : (body.wired.node? id).bind fun node => node.input? slot with
  | none => exact .throw _
  | some input =>
      simp only
      obtain ⟨node, atNode, atInput⟩ := Option.bind_eq_some_iff.1 atSlot
      cases bound : input.binding with
      | some binding =>
          have sight : ∀ other, Relation.ReflTransGen body.Needs binding.node other →
              Sees body id slot other :=
            fun other path => ⟨binding.node, ⟨input, binding, atSlot, bound, rfl⟩, path⟩
          refine .map ((tracks_outputOf traces binding.node binding.output).imp sight
            fun _ _ carries => carries) ?_
          intro expr next carries
          refine ⟨input, atSlot, ?_⟩
          rw [bound]
          exact ⟨expr, rfl, carries⟩
      | none =>
          cases given : input.default with
          | some value =>
              refine .map (tracks_literalAt _ atNode atInput bound given) ?_
              intro expr next found
              refine ⟨input, atSlot, ?_⟩
              rw [bound, given]
              exact ⟨expr, rfl, found⟩
          | none =>
              apply Tracks.pure
              intro visits tracked
              refine ⟨input, atSlot, ?_⟩
              rw [bound, given]

theorem tracks_operandOf (traces : Traces path body start demand) (id : NodeId) (slot : SlotId) :
    Tracks path body start (Sees body id slot) (operandOf body demand id slot) builder
      (fun expr next => Finds body next id slot (some expr)) := by
  unfold operandOf
  apply (tracks_inputOf traces id slot).bind
  intro value next _ finds
  cases value with
  | none => exact .throw _
  | some expr => exact .pure fun _ _ => finds

end Operands

end MaterialGraph.Lowering
