import MaterialGraph.Proofs.Lowering.Locality

/-!
What lowering keeps, whatever the graph. Where steps succeed, expressions stand behind their
operands and all that is remembered is made; the expression of a node that makes a parameter has
the name its author gave it behind the prefix of the body, and the one of a call stands behind the
lowered body of its callee. Nothing is assumed about the slots of nodes or about schedules.
-/

set_option autoImplicit false

namespace MaterialGraph.Lowering

def Below {Key : Type} [DecidableEq Key] (table : Table Key ExprId) (count : Nat) : Prop :=
  ∀ key expr, table.find? key = some expr → expr < count

section Below

variable {Key : Type} [DecidableEq Key] {table : Table Key ExprId} {count : Nat}

theorem below_nil : Below ([] : Table Key ExprId) count := by
  intro key expr found
  cases found

theorem Below.mono (below : Below table count) {more : Nat} (larger : count ≤ more) :
    Below table more :=
  fun key expr found => Nat.lt_of_lt_of_le (below key expr found) larger

theorem Below.insert (below : Below table count) (key : Key) {expr : ExprId}
    (made : expr < count) : Below (table.insert key expr) count :=
  Table.forall_insert (fun _ expr => expr < count) below made

end Below

structure Startable (body : Body) (exprs : ExprList) : Prop where
  ordered : exprs.OrderedFrom 0
  arguments : Below body.arguments exprs.length

/-- What the expression of a lowered node has to be, where the node makes a parameter or calls a
graph. -/
def Stands (body : Body) (exprs : ExprList) (node : MaterialNode) (expr : ExprId) : Prop :=
  match node.kind with
  | .constant value parameter =>
      exprs.Holds expr (.constant value (parameter.map body.qualified)) (some value.type)
  | .functionInput name type default =>
      body.arguments.find? node.id = none → ∀ zero, Literal.zero? type = some zero →
        exprs.Holds expr (.constant (default.getD zero) (some (body.freeName node.id name)))
          (some type)
  | .call (.resolved callee) =>
      ∃ arguments start last, Startable (body.called node.id callee arguments) start ∧
        (body.called node.id callee arguments).build callee.schedule.order (.ofExprs start) =
          .ok () last ∧
        last.exprs.Extends exprs
  | _ => True

theorem Stands.extend {body : Body} {old new : ExprList} (grown : old.Extends new)
    {node : MaterialNode} {expr : ExprId} (stands : Stands body old node expr) :
    Stands body new node expr := by
  unfold Stands at stands ⊢
  split
  · rename_i kind
    rw [kind] at stands
    exact ExprList.Holds.extend grown stands
  · rename_i kind
    rw [kind] at stands
    intro free zero numeric
    exact (stands free zero numeric).extend grown
  · rename_i kind
    rw [kind] at stands
    obtain ⟨arguments, start, last, startable, ran, grownLast⟩ := stands
    exact ⟨arguments, start, last, startable, ran, grownLast.trans grown⟩
  · trivial

structure Consistent (body : Body) (builder : Builder) : Prop where
  ordered : builder.exprs.OrderedFrom 0
  arguments : Below body.arguments builder.exprs.length
  nodes : Below builder.nodes builder.exprs.length
  projections : Below builder.projections builder.exprs.length
  literals : Below builder.literals builder.exprs.length
  stands : ∀ id expr node, builder.nodes.find? id = some expr → body.wired.node? id = some node →
    Stands body builder.exprs node expr

structure Grows (old new : Builder) : Prop where
  exprs : old.exprs.Extends new.exprs
  nodes : ∀ id, (old.nodes.find? id).isSome = true → (new.nodes.find? id).isSome = true

theorem Grows.refl (builder : Builder) : Grows builder builder := ⟨.refl _, fun _ known => known⟩

theorem Grows.trans {first middle last : Builder} (early : Grows first middle)
    (late : Grows middle last) : Grows first last :=
  ⟨early.exprs.trans late.exprs, fun id known => late.nodes id (early.nodes id known)⟩

namespace Consistent

variable {body : Body} {builder : Builder}

theorem ofExprs {exprs : ExprList} (startable : Startable body exprs) :
    Consistent body (.ofExprs exprs) where
  ordered := startable.ordered
  arguments := startable.arguments
  nodes := below_nil
  projections := below_nil
  literals := below_nil
  stands := by
    intro id expr node known
    cases known

/-- More expressions, in order, change nothing that is known. -/
theorem extend (consistent : Consistent body builder) {exprs : ExprList}
    (grown : builder.exprs.Extends exprs) (ordered : exprs.OrderedFrom 0) :
    Consistent body { builder with exprs } where
  ordered := ordered
  arguments := consistent.arguments.mono grown.length_le
  nodes := consistent.nodes.mono grown.length_le
  projections := consistent.projections.mono grown.length_le
  literals := consistent.literals.mono grown.length_le
  stands := fun id expr node known found =>
    (consistent.stands id expr node known found).extend grown

end Consistent

def Keeps {Value : Type} (body : Body) (steps : Lower Value) (builder : Builder)
    (post : Value → Builder → Prop) : Prop :=
  ∀ value next, steps builder = .ok value next →
    Consistent body next ∧ Grows builder next ∧ post value next

namespace Keeps

variable {body : Body} {builder : Builder} {Value Other Item : Type}

theorem pure (consistent : Consistent body builder) {value : Value}
    {post : Value → Builder → Prop} (holds : post value builder) :
    Keeps body (Pure.pure value) builder post := by
  intro other next ran
  cases ran
  exact ⟨consistent, .refl builder, holds⟩

theorem throw (error : LoweringError) {post : Value → Builder → Prop} :
    Keeps body (MonadExcept.throw error) builder post := by
  intro value next ran
  cases ran

theorem bind {steps : Lower Value} {rest : Value → Lower Other}
    {middle : Value → Builder → Prop} {post : Other → Builder → Prop}
    (first : Keeps body steps builder middle)
    (second : ∀ value next, Consistent body next → Grows builder next → middle value next →
      Keeps body (rest value) next post) :
    Keeps body (steps >>= rest) builder post := by
  intro other last ran
  obtain ⟨value, next, ranFirst, ranRest⟩ := exists_of_bind_eq_ok ran
  obtain ⟨consistent, grown, holds⟩ := first value next ranFirst
  obtain ⟨consistentLast, grownLast, holdsLast⟩ :=
    second value next consistent grown holds other last ranRest
  exact ⟨consistentLast, grown.trans grownLast, holdsLast⟩

theorem map {steps : Lower Value} {change : Value → Other} {middle : Value → Builder → Prop}
    {post : Other → Builder → Prop} (first : Keeps body steps builder middle)
    (holds : ∀ value next, middle value next → post (change value) next) :
    Keeps body (change <$> steps) builder post := by
  rw [map_eq_pure_bind]
  exact first.bind fun value next consistent _ held => pure consistent (holds value next held)

theorem get_bind {rest : Builder → Lower Other} {post : Other → Builder → Prop}
    (second : Keeps body (rest builder) builder post) :
    Keeps body (get >>= rest) builder post := second

theorem modify_bind {change : Builder → Builder} {rest : Unit → Lower Other}
    {post : Other → Builder → Prop} (grown : Grows builder (change builder))
    (second : Keeps body (rest ()) (change builder) post) :
    Keeps body (modify change >>= rest) builder post := by
  intro value next ran
  obtain ⟨consistent, grownNext, held⟩ := second value next ran
  exact ⟨consistent, grown.trans grownNext, held⟩

theorem mapM {steps : Item → Lower Value} {post : Value → Builder → Prop} {items : List Item}
    (stable : ∀ value old new, Grows old new → post value old → post value new)
    (each : ∀ item next, Consistent body next → Keeps body (steps item) next post)
    (consistent : Consistent body builder) :
    Keeps body (items.mapM steps) builder
      (fun values next => ∀ value ∈ values, post value next) := by
  induction items generalizing builder with
  | nil => exact pure consistent fun _ member => absurd member List.not_mem_nil
  | cons item rest induction =>
      rw [List.mapM_cons]
      apply (each item builder consistent).bind
      intro value next consistentNext _ held
      apply (induction consistentNext).bind
      intro values last consistentLast grown holds
      exact pure consistentLast
        (List.forall_mem_cons.2 ⟨stable value next last grown held, holds⟩)

end Keeps

def Made (expr : ExprId) (builder : Builder) : Prop := expr < builder.exprs.length

theorem Made.grow {expr : ExprId} {old new : Builder} (grown : Grows old new)
    (made : Made expr old) : Made expr new :=
  Nat.lt_of_lt_of_le made grown.exprs.length_le

variable {body : Body} {builder : Builder}

theorem keeps_push (consistent : Consistent body builder) {kind : ExprKind}
    {type : Option ValueType} (operands : ∀ operand ∈ kind.operands, Made operand builder) :
    Keeps body (push kind type) builder (fun expr next => next.exprs.Holds expr kind type) := by
  intro expr next ran
  cases ran
  have grown := ExprList.extends_push builder.exprs kind type
  have here := ExprList.holds_push builder.exprs kind type
  refine ⟨consistent.extend grown (consistent.ordered.extend grown ?_),
    ⟨grown, fun _ known => known⟩, here⟩
  intro id otherKind otherType from_ held
  have below : id < (builder.exprs.push kind type).length := held.lt_length
  rw [ExprList.length_push] at below
  obtain rfl : id = builder.exprs.length := by omega
  obtain ⟨rfl, _⟩ := here.unique held
  exact operands

theorem keeps_addUse (consistent : Consistent body builder) (expr : ExprId) :
    Keeps body (addUse expr) builder (fun _ _ => True) := by
  intro value next ran
  cases ran
  have grown := ExprList.extends_addUse builder.exprs expr
  refine ⟨consistent.extend grown (consistent.ordered.extend grown ?_),
    ⟨grown, fun _ known => known⟩, trivial⟩
  intro id kind type from_ held
  have below : id < (builder.exprs.addUse expr).length := held.lt_length
  rw [ExprList.length_addUse] at below
  omega

/-- The value of a node, once it is obtained, is remembered; only output blocks have none. -/
def Answered (body : Body) (id : NodeId) (value : Option ExprId) (builder : Builder) : Prop :=
  match value with
  | some expr => builder.nodes.find? id = some expr
  | none => ∃ node block, body.wired.node? id = some node ∧ node.kind = .output block

def Answers (body : Body) (demand : Demand) : Prop :=
  ∀ id builder, Consistent body builder → Keeps body (demand id) builder (Answered body id)

section Operands

variable {demand : Demand}

theorem keeps_outputOf (answers : Answers body demand) (consistent : Consistent body builder)
    (id : NodeId) (slot : SlotId) : Keeps body (outputOf body demand id slot) builder Made := by
  unfold outputOf
  apply (answers id builder consistent).bind
  intro value next consistentNext _ known
  cases value with
  | none => exact .throw _
  | some value =>
      have made : Made value next := consistentNext.nodes id value known
      apply Keeps.get_bind
      cases remembered : next.projections.find? (id, slot) with
      | some expr =>
          exact .pure consistentNext (consistentNext.projections (id, slot) expr remembered)
      | none =>
          cases body.wired.node? id with
          | none => exact .throw _
          | some node =>
              simp only
              cases projected : projection? node slot value with
              | none => exact .pure consistentNext made
              | some kind =>
                  have operands : ∀ operand ∈ kind.operands, Made operand next := by
                    rw [operands_of_projection? projected]
                    simpa using made
                  apply (keeps_push consistentNext operands).bind
                  intro expr last consistentLast _ held
                  have grown : Grows last { last with
                      projections := last.projections.insert (id, slot) expr } :=
                    ⟨.refl _, fun _ known => known⟩
                  refine .modify_bind grown (.pure ?_ held.lt_length)
                  exact { consistentLast with
                    projections := consistentLast.projections.insert (id, slot) held.lt_length }

theorem keeps_literalAt (consistent : Consistent body builder) (id : NodeId) (slot : SlotId)
    (value : Literal) : Keeps body (literalAt id slot value) builder Made := by
  unfold literalAt
  apply Keeps.get_bind
  cases remembered : builder.literals.find? (id, slot) with
  | some expr => exact .pure consistent (consistent.literals (id, slot) expr remembered)
  | none =>
      have operands : ∀ operand ∈ (ExprKind.constant value none).operands,
          Made operand builder := by
        intro operand member
        cases member
      apply (keeps_push consistent operands).bind
      intro expr last consistentLast _ held
      have grown : Grows last { last with literals := last.literals.insert (id, slot) expr } :=
        ⟨.refl _, fun _ known => known⟩
      refine .modify_bind grown (.pure ?_ held.lt_length)
      exact { consistentLast with
        literals := consistentLast.literals.insert (id, slot) held.lt_length }

theorem keeps_inputOf (answers : Answers body demand) (consistent : Consistent body builder)
    (id : NodeId) (slot : SlotId) :
    Keeps body (inputOf body demand id slot) builder
      (fun value next => ∀ expr, value = some expr → Made expr next) := by
  have some_made : ∀ (expr : ExprId) (next : Builder), Made expr next →
      ∀ other, some expr = some other → Made other next := by
    intro expr next made other same
    exact Option.some.inj same ▸ made
  unfold inputOf
  split
  · exact .throw _
  · split
    · exact (keeps_outputOf answers consistent _ _).map some_made
    · exact (keeps_literalAt consistent _ _ _).map some_made
    · refine .pure consistent ?_
      intro expr impossible
      cases impossible

theorem keeps_operandOf (answers : Answers body demand) (consistent : Consistent body builder)
    (id : NodeId) (slot : SlotId) : Keeps body (operandOf body demand id slot) builder Made := by
  unfold operandOf
  apply (keeps_inputOf answers consistent id slot).bind
  intro value next consistentNext _ made
  cases value with
  | none => exact .throw _
  | some expr => exact .pure consistentNext (made expr rfl)

end Operands

/-- Where a callee is inlined, its body is lowered as a whole. -/
def Enters (callee : Callable) : Prop :=
  ∀ (body : Body) (start : ExprList) outputs grown, body.wired = callee.body →
    Startable body start → inline callee body start = .ok outputs grown →
    ∃ last, body.build callee.schedule.order (.ofExprs start) = .ok () last ∧
      Consistent body last ∧ last.exprs = grown ∧ start.Extends grown ∧
      ∀ output ∈ outputs, output < grown.length

section Node

variable {demand : Demand} {id : NodeId} {node : MaterialNode}

def Value (body : Body) (node : MaterialNode) (value : Option ExprId) (builder : Builder) : Prop :=
  match value with
  | some expr => Made expr builder ∧ Stands body builder.exprs node expr
  | none => ∃ block, node.kind = .output block

theorem keeps_pushNode (consistent : Consistent body builder) {kind : ExprKind}
    {type : Option ValueType} (operands : ∀ operand ∈ kind.operands, Made operand builder)
    (stands : ∀ (exprs : ExprList) expr, exprs.Holds expr kind type →
      builder.exprs.Extends exprs → Stands body exprs node expr) :
    Keeps body (some <$> push kind type) builder (Value body node) := by
  rw [map_eq_pure_bind]
  apply (keeps_push consistent operands).bind
  intro expr next consistentNext grown held
  exact .pure consistentNext ⟨held.lt_length, stands next.exprs expr held grown.exprs⟩

theorem keeps_call (answers : Answers body demand) (consistent : Consistent body builder)
    {callee : Callable} (kind : node.kind = .call (.resolved callee)) (enters : Enters callee) :
    Keeps body (lowerNode body demand inline node) builder (Value body node) := by
  unfold lowerNode
  rw [kind]
  simp only
  have each : ∀ (formal : Formal) (next : Builder), Consistent body next →
      Keeps body (do
        let expr ← operandOf body demand node.id formal.index
        pure (formal.node, expr)) next (fun argument last => Made argument.2 last) := by
    intro formal next consistentNext
    apply (keeps_operandOf answers consistentNext node.id formal.index).bind
    intro expr last consistentLast _ made
    exact .pure consistentLast made
  apply (Keeps.mapM (fun _ _ _ grown made => made.grow grown) each consistent).bind
  intro arguments next consistentNext _ made
  have startable : Startable (body.called node.id callee arguments) next.exprs := by
    refine ⟨consistentNext.ordered, ?_⟩
    intro key expr found
    exact made _ (Table.mem_of_find? found)
  have inlined : Keeps body (onExprs (inline callee (body.called node.id callee arguments))) next
      (fun outputs last => (∀ output ∈ outputs, Made output last) ∧
        ∃ lowered, (body.called node.id callee arguments).build callee.schedule.order
          (.ofExprs next.exprs) = .ok () lowered ∧ lowered.exprs = last.exprs) := by
    intro outputs last ran
    unfold onExprs at ran
    split at ran
    · rename_i entered
      cases ran
      obtain ⟨lowered, built, consistentLowered, same, grown, listed⟩ :=
        enters _ next.exprs _ _ rfl startable entered
      have ordered := consistentLowered.ordered
      rw [same] at ordered
      exact ⟨consistentNext.extend grown ordered, ⟨grown, fun _ known => known⟩, listed,
        lowered, built, same⟩
    · cases ran
  apply inlined.bind
  intro outputs last consistentLast _ entered
  obtain ⟨listed, lowered, built, same⟩ := entered
  refine keeps_pushNode consistentLast listed ?_
  intro exprs expr _ grown
  unfold Stands
  rw [kind]
  exact ⟨arguments, next.exprs, lowered, startable, built, same ▸ grown⟩

theorem keeps_textureSample (answers : Answers body demand) (consistent : Consistent body builder)
    (kind : node.kind = .textureSample) :
    Keeps body (lowerNode body demand inline node) builder (Value body node) := by
  unfold lowerNode
  rw [kind]
  simp only
  apply (keeps_operandOf answers consistent node.id Kind.textureSlot).bind
  intro image first consistentFirst _ imageMade
  apply (keeps_operandOf answers consistentFirst node.id Kind.coordinateSlot).bind
  intro coordinate second consistentSecond grownSecond coordinateMade
  apply (keeps_inputOf answers consistentSecond node.id Kind.levelSlot).bind
  intro level third consistentThird grownThird levelMade
  refine keeps_pushNode consistentThird ?_ (by simp [Stands, kind])
  intro operand member
  simp only [ExprKind.operands, List.mem_cons, Option.mem_toList] at member
  rcases member with rfl | rfl | given
  · exact (imageMade.grow grownSecond).grow grownThird
  · exact coordinateMade.grow grownThird
  · exact levelMade operand given

theorem keeps_math (answers : Answers body demand) (consistent : Consistent body builder)
    {op : MathOp} (kind : node.kind = .math op) :
    Keeps body (lowerNode body demand inline node) builder (Value body node) := by
  unfold lowerNode
  rw [kind]
  simp only
  have operands : Keeps body
      (node.inputs.mapM fun input => operandOf body demand node.id input.id) builder
      (fun values next => ∀ value ∈ values, Made value next) :=
    .mapM (fun _ _ _ grown made => made.grow grown)
      (fun input _ consistentNext => keeps_operandOf answers consistentNext node.id input.id)
      consistent
  apply operands.bind
  intro values next consistentNext _ made
  cases body.types.find? (node.id, 0) with
  | none => exact .throw _
  | some type => exact keeps_pushNode consistentNext made (by simp [Stands, kind])

theorem keeps_functionInput (consistent : Consistent body builder) {name : Option String}
    {type : ValueType} {default : Option Literal}
    (kind : node.kind = .functionInput name type default) :
    Keeps body (lowerNode body demand inline node) builder (Value body node) := by
  unfold lowerNode
  rw [kind]
  simp only
  cases given : body.arguments.find? node.id with
  | some argument =>
      refine .pure consistent ⟨consistent.arguments node.id argument given, ?_⟩
      unfold Stands
      rw [kind]
      intro free
      cases given.symm.trans free
  | none =>
      unfold freeInput
      cases numeric : Literal.zero? type with
      | none =>
          refine keeps_pushNode consistent (by simp [ExprKind.operands]) ?_
          intro exprs expr _ _
          unfold Stands
          rw [kind]
          intro _ zero isNumeric
          cases numeric.symm.trans isNumeric
      | some zero =>
          refine keeps_pushNode consistent (by simp [ExprKind.operands]) ?_
          intro exprs expr held _
          unfold Stands
          rw [kind]
          intro _ other isNumeric
          cases numeric.symm.trans isNumeric
          exact held

theorem keeps_lowerNode (answers : Answers body demand) (consistent : Consistent body builder)
    (enters : ∀ callee, node.kind = .call (.resolved callee) → Enters callee) :
    Keeps body (lowerNode body demand inline node) builder (Value body node) := by
  cases kind : node.kind with
  | output block =>
      unfold lowerNode
      rw [kind]
      exact .pure consistent ⟨block, kind⟩
  | constant value parameter =>
      unfold lowerNode
      rw [kind]
      refine keeps_pushNode consistent (by simp [ExprKind.operands]) ?_
      intro exprs expr held _
      unfold Stands
      rw [kind]
      exact held
  | textureRef name source =>
      unfold lowerNode
      rw [kind]
      exact keeps_pushNode consistent (by simp [ExprKind.operands]) (by simp [Stands, kind])
  | textureSample => exact keeps_textureSample answers consistent kind
  | math op => exact keeps_math answers consistent kind
  | functionInput name type default => exact keeps_functionInput consistent kind
  | functionOutput name accepts =>
      unfold lowerNode
      rw [kind]
      refine (keeps_operandOf answers consistent node.id 0).map ?_
      intro expr next made
      exact ⟨made, by simp [Stands, kind]⟩
  | call target =>
      cases target with
      | unresolved path reason =>
          unfold lowerNode
          rw [kind]
          exact .throw _
      | resolved callee => exact keeps_call answers consistent kind (enters callee kind)

end Node

def Callees (body : Body) : Prop :=
  ∀ id node callee, body.wired.node? id = some node → node.kind = .call (.resolved callee) →
    Enters callee

theorem keeps_remember (consistent : Consistent body builder) {id : NodeId} {node : MaterialNode}
    (found : body.wired.node? id = some node) {value : Option ExprId}
    (lowered : Value body node value builder) :
    Keeps body (remember id value) builder (Answered body id) := by
  cases value with
  | none =>
      obtain ⟨block, kind⟩ := lowered
      exact .pure consistent ⟨node, block, found, kind⟩
  | some expr =>
      obtain ⟨made, stands⟩ := lowered
      have grown : Grows builder { builder with nodes := builder.nodes.insert id expr } := by
        refine ⟨.refl _, ?_⟩
        intro other known
        by_cases same : id = other
        · subst same
          rw [Table.find?_insert_self]
          rfl
        · rw [Table.find?_insert_of_ne same]
          exact known
      refine .modify_bind grown (.pure ?_ (Table.find?_insert_self ..))
      refine { consistent with nodes := consistent.nodes.insert id made, stands := ?_ }
      intro other otherExpr otherNode known foundOther
      rcases Table.find?_insert_cases known with ⟨rfl, rfl⟩ | ⟨_, old⟩
      · cases found.symm.trans foundOther
        exact stands
      · exact consistent.stands other otherExpr otherNode old foundOther

theorem answers_demandWithin (callees : Callees body) (bound : Nat) :
    Answers body (demandWithin body inline bound) := by
  induction bound with
  | zero =>
      intro id builder consistent
      unfold demandWithin
      apply Keeps.get_bind
      cases known : builder.nodes.find? id with
      | some expr => exact .pure consistent known
      | none =>
          cases body.wired.node? id with
          | none => exact .throw _
          | some node => exact .throw _
  | succ bound induction =>
      intro id builder consistent
      unfold demandWithin
      apply Keeps.get_bind
      cases known : builder.nodes.find? id with
      | some expr => exact .pure consistent known
      | none =>
          cases found : body.wired.node? id with
          | none => exact .throw _
          | some node =>
              apply (keeps_lowerNode induction consistent
                fun callee kind => callees id node callee found kind).bind
              intro value next consistentNext _ lowered
              exact keeps_remember consistentNext found lowered

def Settled (body : Body) (done : List NodeId) (builder : Builder) : Prop :=
  ∀ id ∈ done, (∃ expr, builder.nodes.find? id = some expr) ∨
    ∃ node block, body.wired.node? id = some node ∧ node.kind = .output block

theorem Settled.grow {done : List NodeId} {old new : Builder} (grown : Grows old new)
    (settled : Settled body done old) : Settled body done new := by
  intro id member
  refine (settled id member).imp ?_ fun isBlock => isBlock
  rintro ⟨expr, known⟩
  exact Option.isSome_iff_exists.1 (grown.nodes id (by rw [known]; rfl))

theorem keeps_lowerAll (callees : Callees body) (consistent : Consistent body builder)
    (order : List NodeId) :
    Keeps body (lowerAll body inline order) builder (fun _ next => Settled body order next) := by
  induction order generalizing builder with
  | nil => exact .pure consistent fun _ member => absurd member List.not_mem_nil
  | cons id rest induction =>
      unfold lowerAll valueOf
      apply (answers_demandWithin callees body.wired.graph.nodes.length id builder consistent).bind
      intro value next consistentNext _ answered
      have here : Settled body [id] next := by
        intro other member
        cases List.mem_singleton.1 member
        cases value with
        | some expr => exact Or.inl ⟨expr, answered⟩
        | none => exact Or.inr answered
      intro done last ran
      obtain ⟨consistentLast, grown, settled⟩ := induction consistentNext done last ran
      refine ⟨consistentLast, grown, ?_⟩
      intro other member
      rcases List.mem_cons.1 member with rfl | later
      · exact here.grow grown other List.mem_cons_self
      · exact settled other later

theorem resultsOf_eq_ok {formals : List Formal} {outputs : List ExprId} {next : Builder}
    (ran : resultsOf formals builder = .ok outputs next) :
    next = builder ∧ List.Forall₂ (fun (formal : Formal) output =>
      builder.nodes.find? formal.node = some output) formals outputs := by
  induction formals generalizing outputs next with
  | nil =>
      cases ran
      exact ⟨rfl, .nil⟩
  | cons formal rest induction =>
      unfold resultsOf at ran
      rw [get_bind] at ran
      cases known : builder.nodes.find? formal.node with
      | none =>
          rw [known] at ran
          cases ran
      | some expr =>
          rw [known] at ran
          obtain ⟨exprs, middle, ranRest, ranLast⟩ := exists_of_bind_eq_ok ran
          cases ranLast
          obtain ⟨rfl, listed⟩ := induction ranRest
          exact ⟨rfl, .cons known listed⟩

/-- Every graph can be entered. The induction is on how deep its calls are nested. -/
theorem enters_inline (callee : Callable) : Enters callee := by
  induction depth : callee.depth using Nat.strong_induction_on generalizing callee with
  | _ depth induction =>
      subst depth
      intro body start outputs grown same startable ran
      have callees : Callees body := by
        intro id node inner found kind
        exact induction inner.depth (Callable.depth_lt_depth (same ▸ found) kind) inner rfl
      rw [inline_eq_build same] at ran
      unfold apart at ran
      split at ran
      · rename_i last whole
        cases ran
        obtain ⟨_, middle, built, ranResults⟩ := exists_of_bind_eq_ok whole
        obtain ⟨rfl, listed⟩ := resultsOf_eq_ok ranResults
        obtain ⟨consistent, grows, _⟩ :=
          keeps_lowerAll callees (.ofExprs startable) callee.schedule.order _ _ built
        refine ⟨last, built, consistent, rfl, grows.exprs, ?_⟩
        intro output member
        obtain ⟨formal, _, known⟩ := exists_related_of_mem (List.Forall₂.flip listed) member
        exact consistent.nodes formal.node output known
      · cases ran

theorem callees_of_body (body : Body) : Callees body :=
  fun _ _ callee _ _ => enters_inline callee

theorem keeps_build (consistent : Consistent body builder) (order : List NodeId) :
    Keeps body (body.build order) builder (fun _ next => Settled body order next) :=
  keeps_lowerAll (callees_of_body body) consistent order

theorem keeps_connected (consistent : Consistent body builder) (root : NodeId)
    (slots : List InputSlot) :
    Keeps body (body.connected root slots) builder (fun _ _ => True) := by
  induction slots generalizing builder with
  | nil => exact .pure consistent trivial
  | cons slot rest induction =>
      unfold Body.connected
      split
      · exact induction consistent
      · have answers := answers_demandWithin (callees_of_body body) body.wired.graph.nodes.length
        apply (keeps_inputOf answers consistent root slot.id).bind
        intro value next consistentNext _ _
        cases value with
        | none => exact induction consistentNext
        | some expr =>
            apply (keeps_addUse consistentNext expr).bind
            intro _ second consistentSecond _ _
            apply (induction consistentSecond).bind
            intro results last consistentLast _ _
            exact .pure consistentLast trivial

theorem keeps_exposed (consistent : Consistent body builder) (root : NodeId)
    (slots : List OutputSlot) :
    Keeps body (body.exposed root slots) builder (fun _ _ => True) := by
  induction slots generalizing builder with
  | nil => exact .pure consistent trivial
  | cons slot rest induction =>
      unfold Body.exposed
      have answers := answers_demandWithin (callees_of_body body) body.wired.graph.nodes.length
      apply (keeps_outputOf answers consistent root slot.id).bind
      intro expr next consistentNext _ _
      apply (keeps_addUse consistentNext expr).bind
      intro _ second consistentSecond _ _
      apply (induction consistentSecond).bind
      intro results last consistentLast _ _
      exact .pure consistentLast trivial

theorem keeps_results (consistent : Consistent body builder) (root : NodeId) :
    Keeps body (body.results root) builder (fun _ _ => True) := by
  unfold Body.results
  split
  · exact .throw _
  · split
    · exact keeps_connected consistent root _
    · exact keeps_exposed consistent root _

end MaterialGraph.Lowering

namespace MaterialGraph.Wired

open Lowering

theorem startable_top (wired : WiredMaterial) (types : TypeTable) :
    Startable (.top wired types) [] := by
  refine ⟨?_, below_nil⟩
  intro id kind type _ held
  exact absurd held.lt_length (Nat.not_lt_zero id)

/-- A compiled root was lowered node by node, and what was made for its nodes is still there. -/
theorem exists_build {wired : WiredMaterial} {policy : ErrorPolicy} {root : NodeId}
    {compiled : CompiledRoot} (ok : wired.compileRoot policy root = .ok compiled) :
    compiled.exprs.OrderedFrom 0 ∧
      ∃ builder, (Body.top wired compiled.types).build compiled.schedule.order (.ofExprs []) =
          .ok () builder ∧ builder.exprs.Extends compiled.exprs := by
  obtain ⟨_, _, _, _, lowered⟩ := compileRoot_eq_ok ok
  unfold lowerRoot at lowered
  simp only at lowered
  split at lowered
  · rename_i results last whole
    obtain ⟨same, _⟩ := Prod.mk.inj (Except.ok.inj lowered)
    rw [← same]
    obtain ⟨_, builder, built, ranResults⟩ := exists_of_bind_eq_ok whole
    obtain ⟨consistent, _, _⟩ :=
      keeps_build (.ofExprs (startable_top wired compiled.types)) _ _ _ built
    obtain ⟨consistentLast, grown, _⟩ := keeps_results consistent root _ _ ranResults
    exact ⟨consistentLast.ordered, builder, built, grown.exprs⟩
  · cases lowered

end MaterialGraph.Wired
