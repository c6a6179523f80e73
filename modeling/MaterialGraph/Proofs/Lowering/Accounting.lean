import MaterialGraph.Proofs.Lowering.Tracking

/-!
Nodes and calls are accounted for. When a node is lowered its operands are tracked first; then it
yields its value, which is made for it or passed on, and for a call also the visits of the callee.
Remembering the value closes the account again. A body is lowered node by node, and the body of a
callee from where its caller stands.
-/

set_option autoImplicit false

namespace MaterialGraph.Lowering

/-- What a node yields once its operands are there: a value, and the visits of what it calls. -/
structure Yields (path : List NodeId) (body : Body) (visits : List Visit) (node : MaterialNode)
    (builder next : Builder) (value : ExprId) (inner : List Visit) : Prop where
  same : next = { builder with exprs := next.exprs }
  pushes : ExprList.Pushes builder.exprs next.exprs
  made : value < next.exprs.length
  takes : Takes next.exprs (visits ++ inner) path body (Finds body builder node.id) node value
  fills : Fills (inner.flatMap Visit.owned ++ if body.makes node.id then [value] else [])
    builder.exprs.length next.exprs.length
  calls : ∀ visit ∈ inner, visit.Faithful next.exprs inner (Finds visit.body visit.builder)
  called : ∀ visit ∈ inner,
    (visit.path = path ++ [node.id] ∧ ∃ callee, node.kind = .call (.resolved callee)) ∨
      ∃ parent ∈ inner, ∃ id, parent.Calls id ∧ visit.path = parent.path ++ [id]
  within : ∀ visit ∈ inner, path ++ [node.id] <+: visit.path
  distinct : (inner.map Visit.path).Nodup

def Ends (path : List NodeId) (body : Body) (start : Nat) (node : MaterialNode)
    (steps : Lower (Option ExprId)) (builder : Builder) : Prop :=
  ∀ visits value next, Tracked path body start builder visits → steps builder = .ok value next →
    ∃ middle more, Tracked path body start middle (visits ++ more) ∧ Remembers builder middle ∧
      (∀ id ∈ middle.nodes.keys,
        id ∈ builder.nodes.keys ∨ Relation.TransGen body.Needs node.id id) ∧
      (∀ producer, body.Needs node.id producer → producer ∈ middle.nodes.keys) ∧
      match value with
      | some value => ∃ inner, Yields path body (visits ++ more) node middle next value inner
      | none => next = middle ∧ ∃ block, node.kind = .output block

section Node

variable {path : List NodeId} {body : Body} {start : Nat} {builder : Builder}
  {node : MaterialNode} {demand : Demand}

theorem needs_of_sees (atNode : body.wired.node? node.id = some node) {slot : SlotId}
    (listed : slot ∈ reads node) {other : NodeId} (sees : Sees body node.id slot other) :
    Relation.TransGen body.Needs node.id other := by
  obtain ⟨producer, fed, path⟩ := sees
  exact Relation.TransGen.head' ⟨node, slot, atNode, listed, fed⟩ path

theorem ends_throw (error : LoweringError) :
    Ends path body start node (MonadExcept.throw error) builder := by
  intro visits value next _ ran
  cases ran

theorem Ends.bind {Value : Type} {steps : Lower Value} {rest : Value → Lower (Option ExprId)}
    {middle : Value → Builder → Prop}
    (first : Tracks path body start (Relation.TransGen body.Needs node.id) steps builder middle)
    (second : ∀ value next, Remembers builder next → middle value next →
      Ends path body start node (rest value) next) :
    Ends path body start node (steps >>= rest) builder := by
  intro visits other last tracked ran
  obtain ⟨value, next, ranFirst, ranRest⟩ := exists_of_bind_eq_ok ran
  obtain ⟨more, trackedNext, remembers, seen, holds⟩ := first visits value next tracked ranFirst
  obtain ⟨there, others, trackedThere, remembersThere, seenThere, needed, outcome⟩ :=
    second value next remembers holds (visits ++ more) other last trackedNext ranRest
  rw [List.append_assoc] at trackedThere outcome
  refine ⟨there, more ++ others, trackedThere, remembers.trans remembersThere, ?_, needed, outcome⟩
  intro id member
  rcases seenThere id member with early | late
  · exact seen id early
  · exact Or.inr late

theorem ends_push {kind : ExprKind} {type : Option ValueType}
    (makes : body.makes node.id = true)
    (needed : ∀ producer, body.Needs node.id producer → producer ∈ builder.nodes.keys)
    (operands : Bounded body builder → ∀ operand ∈ kind.operands, operand < builder.exprs.length)
    (takes : ∀ exprs value visits, exprs.Holds value kind type →
      Takes exprs visits path body (Finds body builder node.id) node value) :
    Ends path body start node (some <$> push kind type) builder := by
  intro visits value next tracked ran
  cases ran
  have pushes := ExprList.Pushes.single (operands tracked.bounded) type
  have held := ExprList.holds_push builder.exprs kind type
  refine ⟨builder, [], by rwa [List.append_nil], .refl builder, fun _ known => Or.inl known,
    needed, [], ?_⟩
  refine ⟨rfl, pushes, held.lt_length, takes _ _ _ held, ?_, by simp, by simp, by simp,
    List.nodup_nil⟩
  rw [if_pos makes]
  have made := Fills.single builder.exprs.length
  rwa [← ExprList.length_push builder.exprs kind type] at made

theorem ends_pass {value : ExprId} (passes : body.makes node.id = false)
    (needed : ∀ producer, body.Needs node.id producer → producer ∈ builder.nodes.keys)
    (made : Bounded body builder → value < builder.exprs.length)
    (takes : ∀ exprs visits,
      Takes exprs visits path body (Finds body builder node.id) node value) :
    Ends path body start node (pure (some value)) builder := by
  intro visits other next tracked ran
  cases ran
  refine ⟨builder, [], by rwa [List.append_nil], .refl builder, fun _ known => Or.inl known,
    needed, [], ?_⟩
  refine ⟨rfl, .refl _, made tracked.bounded, takes _ _, ?_, by simp, by simp, by simp,
    List.nodup_nil⟩
  rw [if_neg (by simp [passes])]
  exact .nil _

theorem not_needs_of_reads (atNode : body.wired.node? node.id = some node)
    (nothing : reads node = []) {producer : NodeId} : ¬body.Needs node.id producer := by
  rintro ⟨other, slot, atOther, listed, _⟩
  cases atNode.symm.trans atOther
  rw [nothing] at listed
  cases listed

/-- What a node needs is known, once all input slots that it reads were looked up. -/
theorem known_of_finds (atNode : body.wired.node? node.id = some node)
    (found : ∀ slot ∈ reads node, ∃ value, Finds body builder node.id slot value)
    (producer : NodeId) (needs : body.Needs node.id producer) :
    producer ∈ builder.nodes.keys := by
  obtain ⟨other, slot, atOther, listed, fed⟩ := needs
  cases atNode.symm.trans atOther
  obtain ⟨value, finds⟩ := found slot listed
  exact finds.known fed

theorem makes_eq (atNode : body.wired.node? node.id = some node) :
    body.makes node.id = body.makesFor node := by
  simp [Body.makes, atNode]

theorem ends_textureSample (traces : Traces path body start demand)
    (atNode : body.wired.node? node.id = some node) (kind : node.kind = .textureSample)
    (inline : Inline) :
    Ends path body start node (lowerNode body demand inline node) builder := by
  have sight : ∀ slot ∈ reads node, ∀ other, Sees body node.id slot other →
      Relation.TransGen body.Needs node.id other :=
    fun slot listed other => needs_of_sees atNode listed
  have read : reads node = [Kind.textureSlot, Kind.coordinateSlot, Kind.levelSlot] := by
    simp [reads, kind]
  rw [read] at sight
  unfold lowerNode
  rw [kind]
  simp only
  apply Ends.bind ((tracks_operandOf traces node.id Kind.textureSlot).imp
    (sight _ (by simp)) fun _ _ finds => finds)
  intro image first _ atImage
  apply Ends.bind ((tracks_operandOf traces node.id Kind.coordinateSlot).imp
    (sight _ (by simp)) fun _ _ finds => finds)
  intro coordinate second remembersSecond atCoordinate
  apply Ends.bind ((tracks_inputOf traces node.id Kind.levelSlot).imp
    (sight _ (by simp)) fun _ _ finds => finds)
  intro level third remembersThird atLevel
  have atImage := (atImage.grow remembersSecond.toRetains).grow remembersThird.toRetains
  have atCoordinate := atCoordinate.grow remembersThird.toRetains
  apply ends_push
  · rw [makes_eq atNode, Body.makesFor, kind]
  · apply known_of_finds atNode
    rw [read]
    intro slot listed
    simp only [List.mem_cons, List.not_mem_nil, or_false] at listed
    rcases listed with rfl | rfl | rfl
    · exact ⟨_, atImage⟩
    · exact ⟨_, atCoordinate⟩
    · exact ⟨_, atLevel⟩
  · intro bounded operand member
    simp only [ExprKind.operands, List.mem_cons, Option.mem_toList] at member
    rcases member with rfl | rfl | given
    · exact bounded.finds atImage
    · exact bounded.finds atCoordinate
    · rw [Option.mem_def.1 given] at atLevel
      exact bounded.finds atLevel
  · intro exprs value visits held
    unfold Takes
    rw [kind]
    exact ⟨image, coordinate, level, atImage, atCoordinate, atLevel, held⟩

theorem ends_math (traces : Traces path body start demand)
    (atNode : body.wired.node? node.id = some node) {op : MathOp} (kind : node.kind = .math op)
    (inline : Inline) :
    Ends path body start node (lowerNode body demand inline node) builder := by
  have read : reads node = node.inputs.map InputSlot.id := by simp [reads, kind]
  unfold lowerNode
  rw [kind]
  simp only
  have operands : Tracks path body start (Relation.TransGen body.Needs node.id)
      (node.inputs.mapM fun input => operandOf body demand node.id input.id) builder
      (fun values next => List.Forall₂ (fun (input : InputSlot) value =>
        Finds body next node.id input.id (some value)) node.inputs values) := by
    apply Tracks.mapM
    · exact fun input value old new remembers finds => finds.grow remembers.toRetains
    · intro input listed next
      apply (tracks_operandOf traces node.id input.id).imp _ fun _ _ finds => finds
      intro other
      apply needs_of_sees atNode
      rw [read]
      exact List.mem_map_of_mem listed
  apply Ends.bind operands
  intro values next _ atOperands
  cases body.types.find? (node.id, 0) with
  | none => exact ends_throw _
  | some type =>
      apply ends_push
      · rw [makes_eq atNode, Body.makesFor, kind]
      · apply known_of_finds atNode
        rw [read]
        intro slot listed
        obtain ⟨input, member, rfl⟩ := List.mem_map.1 listed
        obtain ⟨value, _, finds⟩ := exists_related_of_mem atOperands member
        exact ⟨_, finds⟩
      · intro bounded operand member
        obtain ⟨input, _, finds⟩ := exists_related_of_mem atOperands.flip member
        exact bounded.finds finds
      · intro exprs value visits held
        unfold Takes
        rw [kind]
        exact ⟨values, type, atOperands, held⟩

theorem ends_functionInput (atNode : body.wired.node? node.id = some node) {name : Option String}
    {type : ValueType} {default : Option Literal}
    (kind : node.kind = .functionInput name type default) (inline : Inline) :
    Ends path body start node (lowerNode body demand inline node) builder := by
  have needed : ∀ producer, body.Needs node.id producer → producer ∈ builder.nodes.keys :=
    fun _ needs => absurd needs (not_needs_of_reads atNode (by simp [reads, kind]))
  have makes := makes_eq atNode
  rw [Body.makesFor, kind] at makes
  unfold lowerNode
  rw [kind]
  simp only
  cases given : body.arguments.find? node.id with
  | some argument =>
      apply ends_pass
      · rw [makes, given]
        rfl
      · exact needed
      · exact fun bounded => bounded.arguments node.id argument given
      · intro exprs visits
        unfold Takes Body.Stated
        rw [kind]
        simp only [given]
  | none =>
      unfold freeInput
      cases numeric : Literal.zero? type with
      | some zero =>
          apply ends_push
          · rw [makes, given]
            rfl
          · exact needed
          · intro _ operand member
            cases member
          · intro exprs value visits held
            unfold Takes Body.Stated
            rw [kind]
            simp only [given, numeric]
            exact held
      | none =>
          apply ends_push
          · rw [makes, given]
            rfl
          · exact needed
          · intro _ operand member
            cases member
          · intro exprs value visits held
            unfold Takes Body.Stated
            rw [kind]
            simp only [given, numeric]
            exact held

theorem ends_functionOutput (traces : Traces path body start demand)
    (atNode : body.wired.node? node.id = some node) {name : Option String} {accepts : TypeSet}
    (kind : node.kind = .functionOutput name accepts) (inline : Inline) :
    Ends path body start node (lowerNode body demand inline node) builder := by
  have read : reads node = [0] := by simp [reads, kind]
  unfold lowerNode
  rw [kind]
  simp only [map_eq_pure_bind]
  have sight : ∀ other, Sees body node.id 0 other → Relation.TransGen body.Needs node.id other :=
    fun other => needs_of_sees atNode (by rw [read]; exact List.mem_cons_self)
  apply Ends.bind ((tracks_operandOf traces node.id 0).imp sight fun _ _ finds => finds)
  intro value next _ finds
  apply ends_pass
  · rw [makes_eq atNode, Body.makesFor, kind]
  · apply known_of_finds atNode
    rw [read]
    intro slot listed
    cases List.mem_singleton.1 listed
    exact ⟨_, finds⟩
  · exact fun bounded => bounded.finds finds
  · intro exprs visits
    unfold Takes
    rw [kind]
    exact finds

end Node

def Expands (callee : Callable) : Prop :=
  ∀ (path : List NodeId) (body : Body) (exprs : ExprList) outputs grown,
    body.wired = callee.body → Below body.arguments exprs.length →
    inline callee body exprs = .ok outputs grown →
    ∃ last visits, body.build callee.schedule.order (.ofExprs exprs) = .ok () last ∧
      last.exprs = grown ∧ Tracked path body exprs.length last visits ∧
      ExprList.Pushes exprs grown ∧
      List.Forall₂ (fun (formal : Formal) output => last.nodes.find? formal.node = some output)
        callee.outputs outputs

section Call

variable {path : List NodeId} {body : Body} {start : Nat} {builder : Builder}
  {node : MaterialNode} {callee : Callable} {arguments : Table NodeId ExprId}

theorem nodup_cons_of_within {visit : Visit} {visits : List Visit}
    (within : ∀ other ∈ visits, ∃ id, visit.path ++ [id] <+: other.path)
    (distinct : (visits.map Visit.path).Nodup) : ((visit :: visits).map Visit.path).Nodup := by
  rw [List.map_cons, List.nodup_cons]
  refine ⟨?_, distinct⟩
  intro listed
  obtain ⟨other, member, same⟩ := List.mem_map.1 listed
  obtain ⟨id, inside⟩ := within other member
  have longer := inside.length_le
  rw [same, List.length_append, List.length_singleton] at longer
  omega

theorem yields_call {visits inner : List Visit} {outputs : List ExprId} {last : Builder}
    (atNode : body.wired.node? node.id = some node) (kind : node.kind = .call (.resolved callee))
    (atInputs : List.Forall₂ (fun (formal : Formal) (argument : NodeId × ExprId) =>
      argument.1 = formal.node ∧ Finds body builder node.id formal.index (some argument.2))
      callee.inputs arguments)
    (built : (body.called node.id callee arguments).build callee.schedule.order
      (.ofExprs builder.exprs) = .ok () last)
    (tracked : Tracked (path ++ [node.id]) (body.called node.id callee arguments)
      builder.exprs.length last inner)
    (pushes : ExprList.Pushes builder.exprs last.exprs)
    (atOutputs : List.Forall₂ (fun (formal : Formal) output =>
      last.nodes.find? formal.node = some output) callee.outputs outputs) :
    Yields path body visits node builder
      { builder with exprs := last.exprs.push (.call callee.name outputs) none }
      last.exprs.length
      (⟨path ++ [node.id], body.called node.id callee arguments, last⟩ :: inner) := by
  have held := ExprList.holds_push last.exprs (.call callee.name outputs) none
  have grown := ExprList.extends_push last.exprs (.call callee.name outputs) none
  have operands : ∀ operand ∈ (ExprKind.call callee.name outputs).operands,
      operand < last.exprs.length := by
    intro operand member
    obtain ⟨formal, _, found⟩ := exists_related_of_mem atOutputs.flip member
    exact tracked.bounded.nodes formal.node operand found
  refine ⟨rfl, .push none pushes operands, held.lt_length, ?_, ?_, ?_, ?_, ?_, ?_⟩
  · unfold Takes
    rw [kind]
    exact ⟨arguments, outputs, builder.exprs, _, List.mem_append_right _ List.mem_cons_self,
      atInputs, rfl, rfl, built, atOutputs, held⟩
  · rw [if_pos (by rw [makes_eq atNode, Body.makesFor, kind])]
    have made := Fills.single last.exprs.length
    rw [← ExprList.length_push last.exprs (.call callee.name outputs) none] at made
    exact tracked.fills.append made
  · intro visit member
    rcases List.mem_cons.1 member with rfl | inside
    · exact tracked.itself.mono grown (List.subset_cons_self _ _) fun _ _ _ finds => finds
    · exact (tracked.calls visit inside).mono grown (List.subset_cons_self _ _)
        fun _ _ _ finds => finds
  · intro visit member
    rcases List.mem_cons.1 member with rfl | inside
    · exact Or.inl ⟨rfl, callee, kind⟩
    · exact Or.inr (tracked.called visit inside)
  · intro visit member
    rcases List.mem_cons.1 member with rfl | inside
    · exact List.prefix_rfl
    · obtain ⟨id, _, deeper⟩ := tracked.within visit inside
      exact (List.prefix_append _ _).trans deeper
  · apply nodup_cons_of_within _ tracked.distinct
    intro visit member
    obtain ⟨id, _, deeper⟩ := tracked.within visit member
    exact ⟨id, deeper⟩

theorem ends_inline (atNode : body.wired.node? node.id = some node)
    (kind : node.kind = .call (.resolved callee)) (expands : Expands callee)
    (atInputs : List.Forall₂ (fun (formal : Formal) (argument : NodeId × ExprId) =>
      argument.1 = formal.node ∧ Finds body builder node.id formal.index (some argument.2))
      callee.inputs arguments) :
    Ends path body start node (do
      let outputs ← onExprs (inline callee (body.called node.id callee arguments))
      some <$> push (.call callee.name outputs) none) builder := by
  intro visits value next tracked ran
  obtain ⟨outputs, middle, ranInline, ranPush⟩ := exists_of_bind_eq_ok ran
  unfold onExprs at ranInline
  split at ranInline
  · rename_i entered
    cases ranInline
    cases ranPush
    have below : Below arguments builder.exprs.length := by
      intro key expr found
      obtain ⟨formal, _, _, finds⟩ :=
        exists_related_of_mem atInputs.flip (Table.mem_of_find? found)
      exact tracked.bounded.finds finds
    obtain ⟨last, inner, built, rfl, trackedInner, pushes, atOutputs⟩ :=
      expands (path ++ [node.id]) _ builder.exprs _ _ rfl below entered
    have yields : Yields path body (visits ++ []) node builder _ last.exprs.length _ :=
      yields_call atNode kind atInputs built trackedInner pushes atOutputs
    refine ⟨builder, [], by rwa [List.append_nil], .refl builder, fun _ known => Or.inl known, ?_,
      _, yields⟩
    apply known_of_finds atNode
    have read : reads node = callee.inputs.map Formal.index := by simp [reads, kind]
    rw [read]
    intro slot listed
    obtain ⟨formal, member, rfl⟩ := List.mem_map.1 listed
    obtain ⟨argument, _, _, finds⟩ := exists_related_of_mem atInputs member
    exact ⟨_, finds⟩
  · cases ranInline

theorem ends_call {demand : Demand} (traces : Traces path body start demand)
    (atNode : body.wired.node? node.id = some node)
    (kind : node.kind = .call (.resolved callee)) (expands : Expands callee) :
    Ends path body start node (lowerNode body demand inline node) builder := by
  unfold lowerNode
  rw [kind]
  simp only
  have each : Tracks path body start (Relation.TransGen body.Needs node.id)
      (callee.inputs.mapM fun formal => do
        let expr ← operandOf body demand node.id formal.index
        pure (formal.node, expr)) builder
      (fun arguments next => List.Forall₂ (fun (formal : Formal) (argument : NodeId × ExprId) =>
        argument.1 = formal.node ∧ Finds body next node.id formal.index (some argument.2))
        callee.inputs arguments) := by
    apply Tracks.mapM
    · exact fun formal argument old new remembers held =>
        ⟨held.1, held.2.grow remembers.toRetains⟩
    · intro formal listed next
      have sight : ∀ other, Sees body node.id formal.index other →
          Relation.TransGen body.Needs node.id other := by
        intro other
        apply needs_of_sees atNode
        have read : reads node = callee.inputs.map Formal.index := by simp [reads, kind]
        rw [read]
        exact List.mem_map_of_mem listed
      apply Tracks.bind
        ((tracks_operandOf traces node.id formal.index).imp sight fun _ _ finds => finds)
      intro expr last _ finds
      exact .pure fun _ _ => ⟨rfl, finds⟩
  apply Ends.bind each
  intro arguments next _ atInputs
  exact ends_inline atNode kind expands atInputs

/-- Whatever a node is, lowering it is accounted for. -/
theorem ends_lowerNode {demand : Demand} (traces : Traces path body start demand)
    (atNode : body.wired.node? node.id = some node)
    (expands : ∀ callee, node.kind = .call (.resolved callee) → Expands callee) :
    Ends path body start node (lowerNode body demand inline node) builder := by
  have makes := makes_eq atNode
  cases kind : node.kind with
  | output block =>
      have read : reads node = [] := by simp [reads, kind]
      unfold lowerNode
      rw [kind]
      intro visits value next tracked ran
      cases ran
      exact ⟨builder, [], by rwa [List.append_nil], .refl builder, fun _ known => Or.inl known,
        fun _ needs => absurd needs (not_needs_of_reads atNode read), rfl, block, kind⟩
  | constant value parameter =>
      have read : reads node = [] := by simp [reads, kind]
      unfold lowerNode
      rw [kind]
      apply ends_push
      · rw [makes, Body.makesFor, kind]
      · exact fun _ needs => absurd needs (not_needs_of_reads atNode read)
      · intro _ operand member
        cases member
      · intro exprs expr visits held
        unfold Takes
        rw [kind]
        exact held
  | textureRef name source =>
      have read : reads node = [] := by simp [reads, kind]
      unfold lowerNode
      rw [kind]
      apply ends_push
      · rw [makes, Body.makesFor, kind]
      · exact fun _ needs => absurd needs (not_needs_of_reads atNode read)
      · intro _ operand member
        cases member
      · intro exprs expr visits held
        unfold Takes
        rw [kind]
        exact held
  | textureSample => exact ends_textureSample traces atNode kind inline
  | math op => exact ends_math traces atNode kind inline
  | functionInput name type default => exact ends_functionInput atNode kind inline
  | functionOutput name accepts => exact ends_functionOutput traces atNode kind inline
  | call target =>
      cases target with
      | unresolved path reason =>
          unfold lowerNode
          rw [kind]
          exact ends_throw _
      | resolved callee => exact ends_call traces atNode kind (expands callee kind)

end Call

section Body

variable {path : List NodeId} {body : Body} {start : Nat} {builder : Builder}

/-- Two ways that lead on from one place through the same call are one. -/
theorem eq_of_within {way : List NodeId} {left right : NodeId} (first : path ++ [left] <+: way)
    (second : path ++ [right] <+: way) : left = right := by
  have same := List.prefix_of_prefix_length_le first second (by simp)
  simpa using same.eq_of_length (by simp)

/-- Remembering the value of a node closes the account. -/
theorem Tracked.record {visits inner : List Visit} {next : Builder} {node : MaterialNode}
    {value : ExprId} (tracked : Tracked path body start builder visits)
    (atNode : body.wired.node? node.id = some node) (fresh : node.id ∉ builder.nodes.keys)
    (needed : ∀ producer, body.Needs node.id producer → producer ∈ builder.nodes.keys)
    (yields : Yields path body visits node builder next value inner) :
    Tracked path body start { next with nodes := next.nodes.insert node.id value }
      (visits ++ inner) := by
  obtain ⟨exprs, nodes, projections, literals⟩ := next
  cases yields.same
  have appended := Table.insert_of_notMem fresh value
  have grown := yields.pushes.grown
  have retains : Retains builder
      { builder with exprs, nodes := builder.nodes.insert node.id value } := by
    refine ⟨?_, List.prefix_rfl, List.prefix_rfl⟩
    rw [appended]
    exact List.prefix_append _ _
  have here : node.id ∈ (builder.nodes.insert node.id value).keys :=
    Table.mem_keys_iff.2 ⟨value, Table.find?_insert_self ..⟩
  have bounded := tracked.bounded.mono grown.length_le
  have itself := tracked.itself.mono grown (List.subset_append_left visits inner)
    fun _ _ _ finds => finds.grow retains
  refine ⟨{ bounded with nodes := bounded.nodes.insert node.id yields.made }, ?_,
    ⟨⟨Table.nodup_keys_insert itself.distinct.1 _ _, itself.distinct.2⟩, ?_, ?_, itself.literals⟩,
    ?_, ?_, ?_, ?_, ?_⟩
  · simp only [appended]
    exact .snoc value tracked.grounded fresh needed
  · intro other found known
    rcases Table.find?_insert_cases known with ⟨rfl, rfl⟩ | ⟨_, old⟩
    · exact ⟨node, atNode, yields.takes.mono (.refl _) (List.Subset.refl _)
        fun _ _ finds => finds.grow retains⟩
    · exact itself.nodes other found old
  · intro other slot expr found
    obtain ⟨whole, producer, kind, atWhole, atProducer, projected, held⟩ :=
      itself.projections other slot expr found
    exact ⟨whole, producer, kind, Table.find?_grown retains.nodes atWhole, atProducer, projected,
      held⟩
  · intro visit member
    rcases List.mem_append.1 member with old | new
    · exact (tracked.calls visit old).mono grown (List.subset_append_left _ _)
        fun _ _ _ finds => finds
    · exact (yields.calls visit new).mono (.refl _) (List.subset_append_right _ _)
        fun _ _ _ finds => finds
  · intro visit member
    rcases List.mem_append.1 member with old | new
    · obtain ⟨parent, listed, id, calls, way⟩ := tracked.called_retain retains visit old
      exact ⟨parent, List.cons_subset_cons _ (List.subset_append_left _ _) listed, id, calls, way⟩
    · rcases yields.called visit new with ⟨way, callee, kind⟩ | ⟨parent, listed, id, calls, way⟩
      · exact ⟨_, List.mem_cons_self, node.id, ⟨here, node, callee, atNode, kind⟩, way⟩
      · exact ⟨parent, List.mem_cons_of_mem _ (List.mem_append_right _ listed), id, calls, way⟩
  · intro visit member
    rcases List.mem_append.1 member with old | new
    · obtain ⟨id, known, inside⟩ := tracked.within visit old
      exact ⟨id, retains.mem_keys known, inside⟩
    · exact ⟨node.id, here, yields.within visit new⟩
  · rw [List.map_append]
    apply List.Nodup.append tracked.distinct yields.distinct
    intro way atOld atNew
    obtain ⟨old, oldMember, rfl⟩ := List.mem_map.1 atOld
    obtain ⟨new, newMember, same⟩ := List.mem_map.1 atNew
    obtain ⟨id, known, inside⟩ := tracked.within old oldMember
    have within := yields.within new newMember
    rw [same] at within
    exact fresh (eq_of_within inside within ▸ known)
  · apply (tracked.fills.append yields.fills).perm
    rw [List.perm_iff_count]
    intro place
    simp only [Body.owned, appended, List.filter_append, List.map_append, List.count_append,
      List.flatMap_append, List.filter_cons, List.filter_nil]
    split <;> simp only [List.map_cons, List.map_nil] <;> omega

/-- A node that is not known is lowered and remembered. It is not known by then: nothing that was
lowered meanwhile needs itself. -/
theorem tracks_remember {id : NodeId} {node : MaterialNode} {steps : Lower (Option ExprId)}
    (found : body.wired.node? id = some node) (unknown : builder.nodes.find? id = none)
    (ends : Ends path body start node steps builder) :
    Tracks path body start (Relation.ReflTransGen body.Needs id)
      (steps >>= remember id) builder (Answered body id) := by
  obtain rfl : node.id = id := (Graph.mem_of_node? found).2
  intro visits value next tracked ran
  obtain ⟨value, middle, ranSteps, ranRemember⟩ := exists_of_bind_eq_ok ran
  obtain ⟨there, more, trackedThere, remembers, seen, needed, outcome⟩ :=
    ends visits value middle tracked ranSteps
  have sight : ∀ other ∈ there.nodes.keys, other ∈ builder.nodes.keys ∨
      Relation.ReflTransGen body.Needs node.id other :=
    fun other member => (seen other member).imp_right Relation.TransGen.to_reflTransGen
  have fresh : node.id ∉ there.nodes.keys := by
    intro member
    rcases seen node.id member with early | path
    · exact Table.find?_eq_none_iff.1 unknown early
    · exact (trackedThere.grounded.needs member path).2 rfl
  cases value with
  | none =>
      obtain ⟨rfl, block, kind⟩ := outcome
      cases ranRemember
      exact ⟨more, trackedThere, remembers, sight, node, block, found, kind⟩
  | some value =>
      obtain ⟨inner, yields⟩ := outcome
      cases ranRemember
      have recorded := trackedThere.record found fresh needed yields
      obtain ⟨exprs, nodes, projections, literals⟩ := middle
      cases yields.same
      have appended := Table.insert_of_notMem fresh value
      refine ⟨more ++ inner, ?_, ⟨?_, remembers.exprs.trans yields.pushes⟩, ?_,
        Table.find?_insert_self ..⟩
      · rwa [← List.append_assoc]
      · refine remembers.toRetains.trans ⟨?_, List.prefix_rfl, List.prefix_rfl⟩
        simp only [appended]
        exact List.prefix_append _ _
      · intro other member
        simp only [appended, Table.keys, List.map_append, List.mem_append, List.map_cons,
          List.map_nil, List.mem_singleton] at member
        rcases member with early | rfl
        · exact sight other early
        · exact Or.inr .refl

theorem traces_demandWithin
    (expands : ∀ id node callee, body.wired.node? id = some node →
      node.kind = .call (.resolved callee) → Expands callee) (bound : Nat) :
    Traces path body start (demandWithin body inline bound) := by
  induction bound with
  | zero =>
      intro id builder
      unfold demandWithin
      apply Tracks.get_bind
      cases known : builder.nodes.find? id with
      | some expr => exact .pure fun _ _ => known
      | none =>
          cases body.wired.node? id with
          | none => exact .throw _
          | some node => exact .throw _
  | succ bound induction =>
      intro id builder
      unfold demandWithin
      apply Tracks.get_bind
      cases known : builder.nodes.find? id with
      | some expr => exact .pure fun _ _ => known
      | none =>
          cases found : body.wired.node? id with
          | none => exact .throw _
          | some node =>
              have same : node.id = id := (Graph.mem_of_node? found).2
              apply tracks_remember found known
              exact ends_lowerNode induction (same ▸ found)
                fun callee kind => expands id node callee found kind

theorem tracks_lowerAll
    (expands : ∀ id node callee, body.wired.node? id = some node →
      node.kind = .call (.resolved callee) → Expands callee) (order : List NodeId) :
    Tracks path body start (fun other => ∃ id ∈ order, Relation.ReflTransGen body.Needs id other)
      (lowerAll body inline order) builder (fun _ _ => True) := by
  induction order generalizing builder with
  | nil => exact .pure fun _ _ => trivial
  | cons id rest induction =>
      unfold lowerAll valueOf
      apply Tracks.bind (((traces_demandWithin expands _) id builder).imp
        (fun _ needs => ⟨id, List.mem_cons_self, needs⟩) fun _ _ answered => answered)
      intro value next _ _
      apply induction.imp _ fun _ _ held => held
      rintro other ⟨listed, member, needs⟩
      exact ⟨listed, List.mem_cons_of_mem _ member, needs⟩

/-- Every graph can be visited. The induction is on how deep its calls are nested. -/
theorem expands_inline (callee : Callable) : Expands callee := by
  induction depth : callee.depth using Nat.strong_induction_on generalizing callee with
  | _ depth induction =>
      subst depth
      intro path body exprs outputs grown same below ran
      have expands : ∀ id node inner, body.wired.node? id = some node →
          node.kind = .call (.resolved inner) → Expands inner := by
        intro id node inner found kind
        exact induction inner.depth (Callable.depth_lt_depth (same ▸ found) kind) inner rfl
      rw [inline_eq_build same] at ran
      unfold apart at ran
      split at ran
      · rename_i last whole
        cases ran
        obtain ⟨_, middle, built, ranResults⟩ := exists_of_bind_eq_ok whole
        obtain ⟨rfl, listed⟩ := resultsOf_eq_ok ranResults
        obtain ⟨visits, tracked, remembers, _, _⟩ :=
          tracks_lowerAll expands callee.schedule.order [] _ _ (.ofExprs path below) built
        exact ⟨last, visits, built, rfl, tracked, remembers.exprs, listed⟩
      · cases ran

theorem traces_valueOf (path : List NodeId) (body : Body) (start : Nat) :
    Traces path body start (valueOf body inline) :=
  traces_demandWithin (fun _ _ callee _ _ => expands_inline callee) body.wired.graph.nodes.length

theorem tracks_build (order : List NodeId) :
    Tracks path body start (fun other => ∃ id ∈ order, Relation.ReflTransGen body.Needs id other)
      (body.build order) builder (fun _ _ => True) :=
  tracks_lowerAll (fun _ _ callee _ _ => expands_inline callee) order

end Body

end MaterialGraph.Lowering
