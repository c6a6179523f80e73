import MaterialGraph.Proofs.Lowering.Represents

/-!
Single steps of lowering. Where the producers of a node are lowered, the expressions of its inputs
and outputs are made without failure, and everything the builder remembers is represented.
-/

set_option autoImplicit false

namespace MaterialGraph.Lowering

/-- What a builder knows about a body whose lowering began with given expressions. -/
structure Sound (body : Body) (start : ExprList) (builder : Builder) : Prop where
  grown : start.Extends builder.exprs
  arguments : ∀ id expr, body.arguments.find? id = some expr → expr < start.length
  ordered : builder.exprs.OrderedFrom start.length
  nodes : ∀ {id expr}, builder.nodes.find? id = some expr →
    Represents builder.exprs body (.node id) expr
  projections : ∀ {id slot expr}, builder.projections.find? (id, slot) = some expr →
    Represents builder.exprs body (.output id slot) expr
  literals : ∀ {id slot expr}, builder.literals.find? (id, slot) = some expr →
    Represents builder.exprs body (.input id slot) expr
  placed : ∀ {expr}, start.length ≤ expr → expr < builder.exprs.length →
    Placed builder.exprs body expr

namespace Sound

variable {body : Body} {start : ExprList} {builder : Builder}

theorem ofExprs {body : Body} {exprs : ExprList}
    (arguments : ∀ id expr, body.arguments.find? id = some expr → expr < exprs.length) :
    Sound body exprs (.ofExprs exprs) where
  grown := .refl exprs
  arguments := arguments
  ordered := fun _ _ _ from_ held => absurd held.lt_length (Nat.not_lt.2 from_)
  nodes := by simp [Builder.ofExprs]
  projections := by simp [Builder.ofExprs]
  literals := by simp [Builder.ofExprs]
  placed := fun from_ below => absurd below (Nat.not_lt.2 from_)

theorem lt_length (sound : Sound body start builder) {place : Place} {expr : ExprId}
    (represents : Represents builder.exprs body place expr) : expr < builder.exprs.length :=
  represents.lt_length fun id argument given =>
    Nat.lt_of_lt_of_le (sound.arguments id argument given) sound.grown.length_le

/-- More expressions, all of them placed, leave what is known as it was. -/
theorem extend (sound : Sound body start builder) {exprs : ExprList}
    (grown : builder.exprs.Extends exprs) (ordered : exprs.OrderedFrom builder.exprs.length)
    (placed : ∀ {expr}, builder.exprs.length ≤ expr → expr < exprs.length →
      Placed exprs body expr) :
    Sound body start { builder with exprs } where
  grown := sound.grown.trans grown
  arguments := sound.arguments
  ordered := sound.ordered.extend grown ordered
  nodes := fun known => (sound.nodes known).extend grown
  projections := fun known => (sound.projections known).extend grown
  literals := fun known => (sound.literals known).extend grown
  placed := by
    intro expr from_ below
    by_cases old : expr < builder.exprs.length
    · exact (sound.placed from_ old).extend grown
    · exact placed (Nat.le_of_not_lt old) below

theorem insertNode (sound : Sound body start builder) {id : NodeId} {expr : ExprId}
    (represents : Represents builder.exprs body (.node id) expr) :
    Sound body start { builder with nodes := builder.nodes.insert id expr } :=
  { sound with
    nodes := Table.forall_insert (fun id => Represents builder.exprs body (.node id))
      (fun _ _ => sound.nodes) represents _ _ }

theorem insertProjection (sound : Sound body start builder) {id : NodeId} {slot : SlotId}
    {expr : ExprId} (represents : Represents builder.exprs body (.output id slot) expr) :
    Sound body start
      { builder with projections := builder.projections.insert (id, slot) expr } :=
  { sound with
    projections := Table.forall_insert
      (fun (place : NodeId × SlotId) => Represents builder.exprs body (.output place.1 place.2))
      (fun _ _ => sound.projections) represents _ _ }

theorem insertLiteral (sound : Sound body start builder) {id : NodeId} {slot : SlotId}
    {expr : ExprId} (represents : Represents builder.exprs body (.input id slot) expr) :
    Sound body start { builder with literals := builder.literals.insert (id, slot) expr } :=
  { sound with
    literals := Table.forall_insert
      (fun (place : NodeId × SlotId) => Represents builder.exprs body (.input place.1 place.2))
      (fun _ _ => sound.literals) represents _ _ }

end Sound

theorem get_bind {Other : Type} (rest : Builder → Lower Other) (builder : Builder) :
    (get >>= rest) builder = rest builder builder := rfl

/-- Steps that succeed from a builder, make expressions, and learn nothing about nodes. -/
def Delivers {Value : Type} (body : Body) (start : ExprList) (steps : Lower Value)
    (builder : Builder) (post : Value → ExprList → Prop) : Prop :=
  ∃ value next, steps builder = .ok value next ∧ Sound body start next ∧
    builder.exprs.Extends next.exprs ∧ next.nodes = builder.nodes ∧ post value next.exprs

namespace Delivers

variable {body : Body} {start : ExprList} {builder : Builder} {Value Other : Type}

theorem pure (sound : Sound body start builder) {value : Value}
    {post : Value → ExprList → Prop} (holds : post value builder.exprs) :
    Delivers body start (Pure.pure value) builder post :=
  ⟨value, builder, rfl, sound, .refl _, rfl, holds⟩

theorem bind {steps : Lower Value} {rest : Value → Lower Other}
    {middle : Value → ExprList → Prop} {post : Other → ExprList → Prop}
    (first : Delivers body start steps builder middle)
    (second : ∀ value next, Sound body start next → builder.exprs.Extends next.exprs →
      next.nodes = builder.nodes → middle value next.exprs →
      Delivers body start (rest value) next post) :
    Delivers body start (steps >>= rest) builder post := by
  obtain ⟨value, next, ran, sound, grown, nodes, holds⟩ := first
  obtain ⟨result, last, ranRest, soundLast, grownLast, nodesLast, holdsLast⟩ :=
    second value next sound grown nodes holds
  refine ⟨result, last, ?_, soundLast, grown.trans grownLast, nodesLast.trans nodes, holdsLast⟩
  rw [bind_of_ok ran]
  exact ranRest

theorem map {steps : Lower Value} {change : Value → Other} {middle : Value → ExprList → Prop}
    {post : Other → ExprList → Prop} (first : Delivers body start steps builder middle)
    (holds : ∀ value exprs, middle value exprs → post (change value) exprs) :
    Delivers body start (change <$> steps) builder post := by
  obtain ⟨value, next, ran, sound, grown, nodes, held⟩ := first
  refine ⟨change value, next, ?_, sound, grown, nodes, holds value next.exprs held⟩
  change EStateM.map change steps builder = _
  unfold EStateM.map
  rw [ran]

theorem get_bind {rest : Builder → Lower Other} {post : Other → ExprList → Prop}
    (second : Delivers body start (rest builder) builder post) :
    Delivers body start (get >>= rest) builder post := second

theorem modify_bind {change : Builder → Builder} {rest : Unit → Lower Other}
    {post : Other → ExprList → Prop} (exprs : (change builder).exprs = builder.exprs)
    (nodes : (change builder).nodes = builder.nodes)
    (second : Delivers body start (rest ()) (change builder) post) :
    Delivers body start (modify change >>= rest) builder post := by
  obtain ⟨value, next, ran, sound, grown, kept, held⟩ := second
  exact ⟨value, next, ran, sound, exprs ▸ grown, kept.trans nodes, held⟩

theorem mapM {Item : Type} {steps : Item → Lower Value} {post : Item → Value → ExprList → Prop}
    {items : List Item}
    (stable : ∀ item value old new, ExprList.Extends old new → post item value old →
      post item value new)
    (each : ∀ item ∈ items, ∀ next : Builder, Sound body start next →
      next.nodes = builder.nodes → Delivers body start (steps item) next (post item))
    (sound : Sound body start builder) :
    Delivers body start (items.mapM steps) builder
      (fun values exprs =>
        List.Forall₂ (fun item value => post item value exprs) items values) := by
  induction items generalizing builder with
  | nil => exact pure sound List.Forall₂.nil
  | cons item rest ih =>
      rw [List.mapM_cons]
      apply bind (each item List.mem_cons_self builder sound rfl)
      intro value next soundNext _ nodes held
      have later := ih (fun other member after soundAfter nodesAfter =>
        each other (List.mem_cons_of_mem _ member) after soundAfter (nodesAfter.trans nodes))
        soundNext
      apply bind later
      intro values last soundLast grown _ holds
      exact pure soundLast (List.Forall₂.cons (stable item value _ _ grown held) holds)

end Delivers

variable {body : Body} {start : ExprList} {builder : Builder}

theorem delivers_push (sound : Sound body start builder) {kind : ExprKind}
    {type : Option ValueType} (place : Place) (valid : Typing.Valid body.wired place.id)
    (operands : ∀ operand ∈ kind.operands, operand < builder.exprs.length)
    (represents : ∀ exprs : ExprList, builder.exprs.Extends exprs →
      exprs.Holds builder.exprs.length kind type →
      Represents exprs body place builder.exprs.length) :
    Delivers body start (push kind type) builder
      (fun expr exprs => Represents exprs body place expr) := by
  have grown := ExprList.extends_push builder.exprs kind type
  have here := represents _ grown (ExprList.holds_push builder.exprs kind type)
  have only : ∀ expr, builder.exprs.length ≤ expr →
      expr < (builder.exprs.push kind type).length → expr = builder.exprs.length := by
    intro expr from_ below
    rw [ExprList.length_push] at below
    omega
  refine ⟨_, _, rfl, sound.extend grown ?_ ?_, grown, rfl, here⟩
  · intro expr otherKind otherType from_ held
    obtain rfl := only expr from_ held.lt_length
    obtain ⟨rfl, _⟩ := (ExprList.holds_push builder.exprs kind type).unique held
    exact operands
  · intro expr from_ below
    obtain rfl := only expr from_ below
    exact ⟨body, place, .top, valid, here⟩

def Recalls (demand : Demand) : Prop :=
  ∀ id expr (builder : Builder), builder.nodes.find? id = some expr →
    demand id builder = .ok (some expr) builder

theorem recalls_demandWithin (body : Body) (inline : Inline) (bound : Nat) :
    Recalls (demandWithin body inline bound) := by
  intro id expr builder known
  unfold demandWithin
  rw [get_bind]
  simp only [known]
  rfl

theorem operands_of_projection? {node : MaterialNode} {slot : SlotId} {value : ExprId}
    {kind : ExprKind} (projected : projection? node slot value = some kind) :
    kind.operands = [value] := by
  unfold projection? at projected
  split at projected
  · split at projected <;> cases projected <;> rfl
  · cases projected
    rfl
  · cases projected

theorem delivers_outputOf {demand : Demand} (recalls : Recalls demand)
    (sound : Sound body start builder) {id : NodeId} {slot : SlotId} {node : MaterialNode}
    {output : OutputSlot} {value : ExprId} (found : body.wired.node? id = some node)
    (slotFound : node.output? slot = some output) (valid : Typing.Valid body.wired id)
    (known : builder.nodes.find? id = some value) :
    Delivers body start (outputOf body demand id slot) builder
      (fun expr exprs => Represents exprs body (.output id slot) expr) := by
  have recalled : Delivers body start (demand id) builder (fun result _ => result = some value) :=
    ⟨some value, builder, recalls id value builder known, sound, .refl _, rfl, rfl⟩
  unfold outputOf
  apply recalled.bind
  rintro _ next soundNext grown _ rfl
  have base := (sound.nodes known).extend grown
  apply Delivers.get_bind
  cases remembered : next.projections.find? (id, slot) with
  | some expr => exact Delivers.pure soundNext (soundNext.projections remembered)
  | none =>
      simp only [found]
      cases projected : projection? node slot value with
      | none => exact Delivers.pure soundNext (.whole found slotFound base projected)
      | some kind =>
          have pushed : Delivers body start (push kind ((node.output? slot).bind OutputSlot.type))
              next (fun expr exprs => Represents exprs body (.output id slot) expr) := by
            have operands : ∀ operand ∈ kind.operands, operand < next.exprs.length := by
              rw [operands_of_projection? projected]
              simpa using soundNext.lt_length base
            apply delivers_push soundNext (.output id slot) valid operands
            intro exprs grownAfter held
            rw [slotFound] at held
            exact .part found slotFound (base.extend grownAfter) projected held
          apply pushed.bind
          intro expr last soundLast _ _ represents
          exact Delivers.modify_bind rfl rfl
            (Delivers.pure (soundLast.insertProjection represents) represents)

theorem delivers_literalAt (sound : Sound body start builder) {id : NodeId} {slot : SlotId}
    {node : MaterialNode} {input : InputSlot} {value : Literal}
    (found : body.wired.node? id = some node) (slotFound : node.input? slot = some input)
    (unbound : input.binding = none) (given : input.default = some value)
    (valid : Typing.Valid body.wired id) :
    Delivers body start (literalAt id slot value) builder
      (fun expr exprs => Represents exprs body (.input id slot) expr) := by
  unfold literalAt
  apply Delivers.get_bind
  cases remembered : builder.literals.find? (id, slot) with
  | some expr => exact Delivers.pure sound (sound.literals remembered)
  | none =>
      have pushed : Delivers body start (push (.constant value none) (some value.type)) builder
          (fun expr exprs => Represents exprs body (.input id slot) expr) := by
        apply delivers_push sound (.input id slot) valid (by simp [ExprKind.operands])
        intro exprs _ held
        exact .default found slotFound unbound given held
      apply pushed.bind
      intro expr last soundLast _ _ represents
      exact Delivers.modify_bind rfl rfl
        (Delivers.pure (soundLast.insertLiteral represents) represents)

def Supplied (nodes : Table NodeId ExprId) (node : MaterialNode) : Prop :=
  ∀ input ∈ node.inputs, ∀ binding, input.binding = some binding →
    ∃ expr, nodes.find? binding.node = some expr

def Fed (body : Body) (id : NodeId) (input : InputSlot) (result : Option ExprId)
    (exprs : ExprList) : Prop :=
  match result with
  | some expr => Represents exprs body (.input id input.id) expr
  | none => input.binding = none ∧ input.default = none

section Inputs

variable {demand : Demand} {id : NodeId} {node : MaterialNode} {input : InputSlot}

theorem delivers_inputOf (recalls : Recalls demand) (sound : Sound body start builder)
    (coherent : body.wired.Coherent) (found : body.wired.node? id = some node)
    (valid : Typing.Valid body.wired id) (supplied : Supplied builder.nodes node)
    (member : input ∈ node.inputs) :
    Delivers body start (inputOf body demand id input.id) builder (Fed body id input) := by
  have slotFound := coherent.input?_of_mem found member
  unfold inputOf
  simp only [found, Option.bind_some, slotFound]
  cases bound : input.binding with
  | some binding =>
      obtain ⟨producer, output, foundProducer, foundOutput⟩ := coherent.bound found member bound
      obtain ⟨value, known⟩ := supplied input member binding bound
      have producerValid := valid.of_binding found member bound
      have output := delivers_outputOf recalls sound foundProducer foundOutput producerValid known
      apply output.map
      intro expr exprs represents
      exact .bound found slotFound bound represents
  | none =>
      cases given : input.default with
      | some value =>
          have literal := delivers_literalAt sound found slotFound bound given valid
          exact literal.map fun _ _ represents => represents
      | none => exact Delivers.pure sound ⟨bound, given⟩

theorem delivers_operandOf (recalls : Recalls demand) (sound : Sound body start builder)
    (coherent : body.wired.Coherent) (found : body.wired.node? id = some node)
    (valid : Typing.Valid body.wired id) (supplied : Supplied builder.nodes node)
    (member : input ∈ node.inputs) (needed : input.required = true ∨ input.default.isSome = true) :
    Delivers body start (operandOf body demand id input.id) builder
      (fun expr exprs => Represents exprs body (.input id input.id) expr) := by
  unfold operandOf
  apply (delivers_inputOf recalls sound coherent found valid supplied member).bind
  intro result next soundNext _ _ fed
  cases result with
  | some expr => exact Delivers.pure soundNext fed
  | none =>
      exfalso
      obtain ⟨unbound, missing⟩ := fed
      obtain ⟨type, derived⟩ := valid.exists_input found member
      cases derived with
      | bound bound _ _ => cases unbound.symm.trans bound
      | default _ given _ => cases missing.symm.trans given
      | unfed _ _ optional =>
          rcases needed with required | given
          · cases optional.symm.trans required
          · simp [missing] at given

end Inputs

end MaterialGraph.Lowering
