import MaterialGraph.Proofs.Lowering.Steps

/-!
Lowering one node. A valid node whose producers are lowered is lowered without failure, given that
the callee of a call can be lowered anywhere.
-/

set_option autoImplicit false

namespace MaterialGraph

namespace Kind

theorem required_of_mem_math {op : MathOp} {layout : InputSlot}
    (member : layout ∈ (Kind.math op : Kind (CallTarget Callable)).inputs) :
    layout.required = true := by
  obtain ⟨entry, _, rfl⟩ := List.mem_map.1 member
  rfl

theorem mem_inputs_textureSample {kind : Kind (CallTarget Callable)}
    (sample : kind = .textureSample) :
    InputSlot.mandatory textureSlot "Texture" .textures ∈ kind.inputs ∧
      InputSlot.mandatory coordinateSlot "UV" (.single .vec2) ∈ kind.inputs ∧
      InputSlot.optional levelSlot "Lod" (.single .scalar) ∈ kind.inputs := by
  subst sample
  exact ⟨List.mem_cons_self, List.mem_cons_of_mem _ List.mem_cons_self,
    List.mem_cons_of_mem _ (List.mem_cons_of_mem _ List.mem_cons_self)⟩

end Kind

namespace Lowering

variable {body : Body} {start : ExprList} {builder : Builder}

/-- Inlining a callee into any list of expressions succeeds; what it adds represents the callee. -/
def Inlines (inline : Inline) (callee : Callable) : Prop :=
  ∀ (body : Body) (exprs : ExprList), body.wired = callee.body → body.types = callee.types →
    (∀ id expr, body.arguments.find? id = some expr → expr < exprs.length) →
    ∃ outputs grown, inline callee body exprs = .ok outputs grown ∧ exprs.Extends grown ∧
      grown.OrderedFrom exprs.length ∧
      List.Forall₂ (fun formal output => Represents grown body (.node formal.node) output)
        callee.outputs outputs ∧
      ∀ expr, exprs.length ≤ expr → expr < grown.length → Placed grown body expr

def argumentsOf (body : Body) (demand : Demand) (id : NodeId) (callee : Callable) :
    Lower (Table NodeId ExprId) :=
  callee.inputs.mapM fun formal => do
    let expr ← operandOf body demand id formal.index
    pure (formal.node, expr)

def Lowered (body : Body) (id : NodeId) (node : MaterialNode) (result : Option ExprId)
    (exprs : ExprList) : Prop :=
  match result with
  | some expr => Represents exprs body (.node id) expr
  | none => ∃ block, node.kind = .output block

section Node

variable {demand : Demand} {inline : Inline} {id : NodeId} {node : MaterialNode}

theorem delivers_operandOf_layout (recalls : Recalls demand) (sound : Sound body start builder)
    (coherent : body.wired.Coherent) (found : body.wired.node? id = some node)
    (valid : Typing.Valid body.wired id) (supplied : Supplied builder.nodes node)
    {layout : InputSlot} (member : layout ∈ node.kind.inputs)
    (needed : layout.required = true ∨ layout.default.isSome = true) :
    Delivers body start (operandOf body demand id layout.id) builder
      (fun expr exprs => Represents exprs body (.input id layout.id) expr) := by
  obtain ⟨input, inputMember, fits⟩ := (coherent.laid found).exists_input member
  rw [← fits.id]
  apply delivers_operandOf recalls sound coherent found valid supplied inputMember
  rcases needed with required | given
  · exact Or.inl (fits.required.trans required)
  · exact Or.inr (fits.default given)

theorem delivers_pushNode (sound : Sound body start builder) (valid : Typing.Valid body.wired id)
    {kind : ExprKind} {type : Option ValueType}
    (operands : ∀ operand ∈ kind.operands, operand < builder.exprs.length)
    (represents : ∀ exprs : ExprList, builder.exprs.Extends exprs →
      exprs.Holds builder.exprs.length kind type →
      Represents exprs body (.node id) builder.exprs.length) :
    Delivers body start (some <$> push kind type) builder (Lowered body id node) :=
  (delivers_push sound (.node id) valid operands represents).map fun _ _ holds => holds

theorem delivers_sample (recalls : Recalls demand) (sound : Sound body start builder)
    (coherent : body.wired.Coherent) (found : body.wired.node? id = some node)
    (named : node.id = id) (valid : Typing.Valid body.wired id)
    (supplied : Supplied builder.nodes node) (kind : node.kind = .textureSample) :
    Delivers body start (lowerNode body demand inline node) builder (Lowered body id node) := by
  simp only [lowerNode, kind, named]
  rcases Kind.mem_inputs_textureSample kind with ⟨imageMember, coordinateMember, levelMember⟩
  apply (delivers_operandOf_layout recalls sound coherent found valid supplied imageMember
    (Or.inl rfl)).bind
  intro image first soundFirst _ nodesFirst imageHolds
  apply (delivers_operandOf_layout recalls soundFirst coherent found valid
    (nodesFirst ▸ supplied) coordinateMember (Or.inl rfl)).bind
  intro coordinate second soundSecond grownSecond nodesSecond coordinateHolds
  obtain ⟨lod, lodMember, fits⟩ := (coherent.laid found).exists_input levelMember
  have lodId : lod.id = Kind.levelSlot := fits.id
  have lodFound := coherent.input?_of_mem found lodMember
  have level := delivers_inputOf recalls soundSecond coherent found valid
    (nodesSecond ▸ nodesFirst ▸ supplied) lodMember
  rw [lodId] at level lodFound
  apply level.bind
  intro result third soundThird grownThird _ fed
  have imageThird := (imageHolds.extend grownSecond).extend grownThird
  have coordinateThird := coordinateHolds.extend grownThird
  have levelThird : ∀ value, result = some value →
      Represents third.exprs body (.input id Kind.levelSlot) value := by
    rintro value rfl
    rw [← lodId]
    exact fed
  refine delivers_pushNode soundThird valid ?_ ?_
  · intro operand member
    simp only [ExprKind.operands, List.mem_cons, Option.mem_toList] at member
    rcases member with rfl | rfl | given
    · exact soundThird.lt_length imageThird
    · exact soundThird.lt_length coordinateThird
    · exact soundThird.lt_length (levelThird operand given)
  · intro exprs grown held
    refine .sample found kind (imageThird.extend grown) (coordinateThird.extend grown) lodFound
      (fun value given => (levelThird value given).extend grown) ?_ held
    rintro rfl
    exact fed

theorem delivers_math (recalls : Recalls demand) (sound : Sound body start builder)
    (coherent : body.wired.Coherent) (found : body.wired.node? id = some node)
    (named : node.id = id) (valid : Typing.Valid body.wired id)
    (supplied : Supplied builder.nodes node) {op : MathOp} (kind : node.kind = .math op)
    {type : ValueType} (typed : body.types.find? (id, 0) = some type) :
    Delivers body start (lowerNode body demand inline node) builder (Lowered body id node) := by
  simp only [lowerNode, kind, named]
  have operands : Delivers body start
      (node.inputs.mapM fun input => operandOf body demand id input.id) builder
      (fun operands exprs => List.Forall₂
        (fun input operand => Represents exprs body (.input id input.id) operand)
        node.inputs operands) := by
    refine Delivers.mapM (fun _ _ _ _ grown represents => represents.extend grown) ?_ sound
    intro input member next soundNext nodes
    obtain ⟨layout, layoutMember, fits⟩ := (coherent.laid found).exists_layout member
    rw [kind] at layoutMember
    have required := fits.required.trans (Kind.required_of_mem_math layoutMember)
    exact delivers_operandOf recalls soundNext coherent found valid (nodes ▸ supplied) member
      (Or.inl required)
  apply operands.bind
  intro values next soundNext _ _ represents
  simp only [typed]
  refine delivers_pushNode soundNext valid ?_ ?_
  · intro operand member
    obtain ⟨_, _, held⟩ := exists_related_of_mem represents.flip member
    exact soundNext.lt_length held
  · intro exprs grown held
    obtain ⟨length, pairs⟩ := List.forall₂_iff_zip.1 represents
    exact .math found kind length (fun _ _ pair => (pairs pair).extend grown) typed held

theorem delivers_functionInput (sound : Sound body start builder)
    (found : body.wired.node? id = some node) (named : node.id = id)
    (valid : Typing.Valid body.wired id) {name : Option String} {type : ValueType}
    {default : Option Literal} (kind : node.kind = .functionInput name type default) :
    Delivers body start (lowerNode body demand inline node) builder (Lowered body id node) := by
  simp only [lowerNode, kind, named]
  cases given : body.arguments.find? id with
  | some argument => exact Delivers.pure sound (.argument found kind given)
  | none =>
      simp only [freeInput]
      cases zero : Literal.zero? type with
      | some literal =>
          exact delivers_pushNode sound valid (by simp [ExprKind.operands]) fun _ _ held =>
            .freeParameter found kind given zero held
      | none =>
          exact delivers_pushNode sound valid (by simp [ExprKind.operands]) fun _ _ held =>
            .freeTexture found kind given zero held

/-- Running steps on the expressions alone keeps a builder sound if all they add is placed. -/
theorem delivers_onExprs {Value : Type} (sound : Sound body start builder)
    {steps : LowerExprs Value} {value : Value} {exprs : ExprList}
    (ran : steps builder.exprs = .ok value exprs) (grown : builder.exprs.Extends exprs)
    (ordered : exprs.OrderedFrom builder.exprs.length)
    (placed : ∀ {expr}, builder.exprs.length ≤ expr → expr < exprs.length →
      Placed exprs body expr)
    {post : Value → ExprList → Prop} (holds : post value exprs) :
    Delivers body start (onExprs steps) builder post := by
  refine ⟨value, { builder with exprs }, ?_, sound.extend grown ordered placed, grown, rfl,
    holds⟩
  unfold onExprs
  rw [ran]

theorem delivers_arguments (recalls : Recalls demand) (sound : Sound body start builder)
    (coherent : body.wired.Coherent) (found : body.wired.node? id = some node)
    (valid : Typing.Valid body.wired id) (supplied : Supplied builder.nodes node)
    {callee : Callable} (kind : node.kind = .call (.resolved callee)) :
    Delivers body start (argumentsOf body demand id callee) builder
      (fun arguments exprs => List.Forall₂
        (fun (formal : Formal) (argument : NodeId × ExprId) => argument.1 = formal.node ∧
          Represents exprs body (.input id formal.index) argument.2)
        callee.inputs arguments) := by
  refine Delivers.mapM (fun _ _ _ _ grown held => ⟨held.1, held.2.extend grown⟩) ?_ sound
  intro formal member next soundNext nodes
  have layoutMember : formal.inputSlot ∈ node.kind.inputs := by
    rw [kind]
    exact List.mem_map_of_mem member
  have operand := delivers_operandOf_layout recalls soundNext coherent found valid
    (nodes ▸ supplied) layoutMember formal.inputSlot_required_or_default
  rw [formal.inputSlot_id] at operand
  apply operand.bind
  intro expr last soundLast _ _ represents
  exact Delivers.pure soundLast ⟨rfl, represents⟩

theorem delivers_call (recalls : Recalls demand) (sound : Sound body start builder)
    (coherent : body.wired.Coherent) (found : body.wired.node? id = some node)
    (named : node.id = id) (valid : Typing.Valid body.wired id)
    (supplied : Supplied builder.nodes node) {callee : Callable}
    (kind : node.kind = .call (.resolved callee)) (inlines : Inlines inline callee) :
    Delivers body start (lowerNode body demand inline node) builder (Lowered body id node) := by
  simp only [lowerNode, kind, named]
  have arguments := delivers_arguments recalls sound coherent found valid supplied kind
  apply arguments.bind
  intro table next soundNext _ _ given
  have keys : table.map Prod.fst = callee.inputs.map Formal.node :=
    map_eq_map_iff_forall₂.2 (given.flip.imp fun _ _ held => held.1)
  obtain ⟨argumentsLength, argumentPairs⟩ := List.forall₂_iff_zip.1 given
  have made : ∀ id expr, (body.called id callee table).arguments.find? id = some expr →
      expr < next.exprs.length := by
    intro placeholder expr member
    obtain ⟨_, _, held⟩ := exists_related_of_mem given.flip (Table.mem_of_find? member)
    exact soundNext.lt_length held.2
  obtain ⟨outputs, exprs, ran, grown, ordered, represents, placed⟩ :=
    inlines (body.called id callee table) next.exprs rfl rfl made
  -- The callee stands inside of this body, and what represents it is placed in this body.
  have inside : Inlined exprs body (body.called id callee table) :=
    .call .top found kind valid keys fun formal argument pair =>
      (argumentPairs pair).2.extend grown
  have inlined : Delivers body start
      (onExprs (inline callee (body.called id callee table))) next
      (fun outputs exprs => List.Forall₂
          (fun formal output => Represents exprs (body.called id callee table)
            (.node formal.node) output) callee.outputs outputs) := by
    refine delivers_onExprs soundNext ran grown ordered ?_ represents
    intro expr from_ below
    obtain ⟨inner, place, innerInlined, innerValid, innerRepresents⟩ := placed expr from_ below
    exact ⟨inner, place, inside.trans innerInlined, innerValid, innerRepresents⟩
  apply inlined.bind
  intro results last soundLast grownLast _ resultsHold
  refine delivers_pushNode soundLast valid ?_ ?_
  · intro operand member
    obtain ⟨_, _, held⟩ := exists_related_of_mem resultsHold.flip member
    exact held.lt_length fun id expr known =>
      Nat.lt_of_lt_of_le (made id expr known) grownLast.length_le
  · intro exprs grownAfter held
    obtain ⟨outputsLength, outputPairs⟩ := List.forall₂_iff_zip.1 resultsHold
    exact .call found kind keys
      (fun formal argument pair => ((argumentPairs pair).2.extend grownLast).extend grownAfter)
      outputsLength (fun formal output pair => (outputPairs pair).extend grownAfter) held

/-- A valid node whose producers are lowered is lowered. -/
theorem delivers_lowerNode (recalls : Recalls demand) (sound : Sound body start builder)
    (coherent : body.wired.Coherent) (found : body.wired.node? id = some node)
    (named : node.id = id) (valid : Typing.Valid body.wired id)
    (resolved : node.kind.isUnresolvedCall = false)
    (typed : ∀ op, node.kind = .math op → ∃ type, body.types.find? (id, 0) = some type)
    (supplied : Supplied builder.nodes node)
    (inlines : ∀ callee, node.kind = .call (.resolved callee) → Inlines inline callee) :
    Delivers body start (lowerNode body demand inline node) builder (Lowered body id node) := by
  cases kind : node.kind with
  | constant value parameter =>
      simp only [lowerNode, kind]
      exact delivers_pushNode sound valid (by simp [ExprKind.operands])
        fun _ _ held => .constant found kind held
  | textureRef name source =>
      simp only [lowerNode, kind]
      exact delivers_pushNode sound valid (by simp [ExprKind.operands])
        fun _ _ held => .textureRef found kind held
  | textureSample => exact delivers_sample recalls sound coherent found named valid supplied kind
  | math op =>
      obtain ⟨type, recorded⟩ := typed op kind
      exact delivers_math recalls sound coherent found named valid supplied kind recorded
  | output block =>
      simp only [lowerNode, kind]
      exact Delivers.pure sound ⟨block, kind⟩
  | functionInput name type default => exact delivers_functionInput sound found named valid kind
  | functionOutput name accepts =>
      simp only [lowerNode, kind, named]
      have member : InputSlot.mandatory 0 "Value" accepts ∈ node.kind.inputs := by
        rw [kind]
        exact List.mem_cons_self
      apply (delivers_operandOf_layout recalls sound coherent found valid supplied member
        (Or.inl rfl)).map
      intro expr exprs represents
      exact .functionOutput found kind represents
  | call target =>
      cases target with
      | resolved callee =>
          exact delivers_call recalls sound coherent found named valid supplied kind
            (inlines callee kind)
      | unresolved path reason =>
          rw [kind] at resolved
          cases resolved

end Node

end Lowering

end MaterialGraph
