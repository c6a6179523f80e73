import MaterialGraph.Compile.Root
import MaterialGraph.Proofs.Lowering.Node

/-!
Lowering a checked body never fails. Nodes are lowered in an order that has producers first, so
that each finds its operands made; calls are lowered by lowering the body of the callee, which was
checked when the callable was made and calls only what is nested less deeply.
-/

set_option autoImplicit false

namespace MaterialGraph

namespace Lowering

variable {body : Body} {start : ExprList} {builder : Builder} {inline : Inline}

def Known (body : Body) (done : List NodeId) (nodes : Table NodeId ExprId) : Prop :=
  ∀ id ∈ done, ∀ node, body.wired.node? id = some node →
    (∃ expr, nodes.find? id = some expr) ∨ ∃ block, node.kind = .output block

theorem Known.supplied {done : List NodeId} {nodes : Table NodeId ExprId}
    (known : Known body done nodes) (coherent : body.wired.Coherent) {id : NodeId}
    {node : MaterialNode} (found : body.wired.node? id = some node)
    (earlier : ∀ input ∈ node.inputs, ∀ binding, input.binding = some binding →
      binding.node ∈ done) : Supplied nodes node := by
  intro input member binding bound
  obtain ⟨producer, output, foundProducer, foundOutput⟩ := coherent.bound found member bound
  rcases known _ (earlier input member binding bound) producer foundProducer with
    lowered | ⟨block, kind⟩
  · exact lowered
  · -- An output block has no slot that a link could start at.
    have outputs := (coherent.laid foundProducer).outputs
    rw [kind] at outputs
    simp [Node.output?, outputs, Kind.outputs] at foundOutput

theorem remember_step (sound : Sound body start builder) {done : List NodeId}
    (known : Known body done builder.nodes) {id : NodeId} {node : MaterialNode}
    (found : body.wired.node? id = some node) {result : Option ExprId}
    (lowered : Lowered body id node result builder.exprs) :
    ∃ next, remember id result builder = .ok result next ∧ Sound body start next ∧
      next.exprs = builder.exprs ∧ Known body (done ++ [id]) next.nodes := by
  cases result with
  | none =>
      refine ⟨builder, rfl, sound, rfl, ?_⟩
      intro other member otherNode foundOther
      rcases List.mem_append.1 member with old | new
      · exact known other old otherNode foundOther
      · obtain rfl := List.mem_singleton.1 new
        cases found.symm.trans foundOther
        exact Or.inr lowered
  | some expr =>
      refine ⟨{ builder with nodes := builder.nodes.insert id expr }, rfl,
        sound.insertNode lowered, rfl, ?_⟩
      intro other member otherNode foundOther
      by_cases same : id = other
      · subst same
        exact Or.inl ⟨expr, Table.find?_insert_self ..⟩
      · have old : other ∈ done := by
          rcases List.mem_append.1 member with old | new
          · exact old
          · exact absurd (List.mem_singleton.1 new).symm same
        rw [Table.find?_insert_of_ne same]
        exact known other old otherNode foundOther

/-- The next node of a checked body is lowered. -/
theorem valueOf_step {order done rest : List NodeId} {id : NodeId}
    (checked : body.wired.Checked order body.types) (split : order = done ++ id :: rest)
    (inlines : ∀ node callee, body.wired.node? id = some node →
      node.kind = .call (.resolved callee) → Inlines inline callee)
    (sound : Sound body start builder) (known : Known body done builder.nodes) :
    ∃ result next, valueOf body inline id builder = .ok result next ∧ Sound body start next ∧
      builder.exprs.Extends next.exprs ∧ Known body (done ++ [id]) next.nodes := by
  have member : id ∈ order := by simp [split]
  obtain ⟨node, found, named⟩ := checked.present id member
  cases cached : builder.nodes.find? id with
  | some expr =>
      refine ⟨some expr, builder, recalls_demandWithin body inline _ id expr builder cached, sound,
        .refl _, ?_⟩
      intro other otherMember otherNode foundOther
      rcases List.mem_append.1 otherMember with old | new
      · exact known other old otherNode foundOther
      · obtain rfl := List.mem_singleton.1 new
        exact Or.inl ⟨expr, cached⟩
  | none =>
      -- There is a node, so that the bound on waiting nodes is not used up.
      obtain ⟨bound, size⟩ : ∃ bound, body.wired.graph.nodes.length = bound + 1 :=
        Nat.exists_eq_succ_of_ne_zero
          (Nat.ne_of_gt (List.length_pos_of_mem (Graph.mem_of_node? found).1))
      have typed : ∀ op, node.kind = .math op →
          ∃ type, body.types.find? (id, 0) = some type := by
        intro op kind
        have slot : ⟨0, "Result", none⟩ ∈ node.outputs := by
          rw [(checked.coherent.laid found).outputs, kind]
          exact List.mem_singleton_self _
        obtain ⟨type, recorded, _⟩ := checked.exists_recorded member found slot
        exact ⟨type, recorded⟩
      obtain ⟨result, middle, ran, soundMiddle, grown, kept, lowered⟩ :=
        delivers_lowerNode (recalls_demandWithin body inline bound) sound checked.coherent found
          named (checked.valid id member) (checked.resolved id member node found) typed
          (known.supplied checked.coherent found (checked.ordered done id rest split node found))
          (fun callee kind => inlines node callee found kind)
      obtain ⟨next, remembered, soundNext, same, knownNext⟩ :=
        remember_step soundMiddle (kept ▸ known) found lowered
      refine ⟨result, next, ?_, soundNext, same ▸ grown, knownNext⟩
      unfold valueOf
      rw [size]
      unfold demandWithin
      rw [get_bind]
      simp only [cached, found]
      rw [bind_of_ok ran]
      exact remembered

theorem lowerAll_run {order done rest later : List NodeId}
    (checked : body.wired.Checked order body.types) (split : order = done ++ rest ++ later)
    (inlines : ∀ id node callee, body.wired.node? id = some node →
      node.kind = .call (.resolved callee) → Inlines inline callee)
    (sound : Sound body start builder) (known : Known body done builder.nodes) :
    ∃ next, lowerAll body inline rest builder = .ok () next ∧ Sound body start next ∧
      Known body (done ++ rest) next.nodes := by
  induction rest generalizing done builder with
  | nil => exact ⟨builder, rfl, sound, by simpa using known⟩
  | cons id rest ih =>
      have here : order = done ++ id :: (rest ++ later) := by simp [split]
      obtain ⟨result, middle, ran, soundMiddle, _, knownMiddle⟩ :=
        valueOf_step checked here (inlines id) sound known
      have there : order = done ++ [id] ++ rest ++ later := by simp [split]
      obtain ⟨next, ranRest, soundNext, knownNext⟩ := ih there soundMiddle knownMiddle
      refine ⟨next, ?_, soundNext, by simpa using knownNext⟩
      unfold lowerAll
      rw [bind_of_ok ran]
      exact ranRest

theorem lowerAll_start {order done later : List NodeId}
    (checked : body.wired.Checked order body.types) (split : order = done ++ later)
    (inlines : ∀ id node callee, body.wired.node? id = some node →
      node.kind = .call (.resolved callee) → Inlines inline callee)
    (arguments : ∀ id expr, body.arguments.find? id = some expr → expr < start.length) :
    ∃ next, lowerAll body inline done (.ofExprs start) = .ok () next ∧ Sound body start next ∧
      Known body done next.nodes := by
  have parts : order = [] ++ done ++ later := split
  have nothing : Known body [] (Builder.ofExprs start).nodes := by simp [Known]
  exact lowerAll_run checked parts inlines (Sound.ofExprs arguments) nothing

theorem delivers_resultsOf (sound : Sound body start builder) {formals : List Formal}
    (lowered : ∀ formal ∈ formals, ∃ expr, builder.nodes.find? formal.node = some expr) :
    Delivers body start (resultsOf formals) builder
      (fun outputs exprs => List.Forall₂
        (fun formal output => Represents exprs body (.node formal.node) output)
        formals outputs) := by
  induction formals with
  | nil => exact Delivers.pure sound List.Forall₂.nil
  | cons formal rest ih =>
      obtain ⟨expr, known⟩ := lowered formal List.mem_cons_self
      have later := ih fun other member => lowered other (List.mem_cons_of_mem _ member)
      unfold resultsOf
      apply Delivers.get_bind
      simp only [known]
      apply later.bind
      intro exprs next soundNext grown _ represents
      exact Delivers.pure soundNext
        (List.Forall₂.cons ((sound.nodes known).extend grown) represents)

theorem lowerNode_congr {demand : Demand} {left right : Inline} {node : MaterialNode}
    (same : ∀ callee, node.kind = .call (.resolved callee) → left callee = right callee) :
    lowerNode body demand left node = lowerNode body demand right node := by
  unfold lowerNode
  split
  case h_8 callee kind => rw [same callee kind]
  all_goals rfl

theorem demandWithin_congr {left right : Inline}
    (same : ∀ id node callee, body.wired.node? id = some node →
      node.kind = .call (.resolved callee) → left callee = right callee) (bound : Nat) :
    demandWithin body left bound = demandWithin body right bound := by
  induction bound with
  | zero =>
      funext id
      unfold demandWithin
      rfl
  | succ bound ih =>
      funext id
      unfold demandWithin
      cases found : body.wired.node? id with
      | none => rfl
      | some node =>
          simp only [ih, lowerNode_congr fun callee kind => same id node callee found kind]

theorem lowerAll_congr {left right : Inline}
    (same : ∀ id node callee, body.wired.node? id = some node →
      node.kind = .call (.resolved callee) → left callee = right callee) (order : List NodeId) :
    lowerAll body left order = lowerAll body right order := by
  induction order with
  | nil => rfl
  | cons id rest ih =>
      unfold lowerAll valueOf
      rw [ih, demandWithin_congr same]

/-- A callee is lowered as any body is: what it calls is nested less deeply. -/
theorem inline_eq_build {callee : Callable} (same : body.wired = callee.body) :
    Lowering.inline callee body =
      apart (body.build callee.schedule.order >>= fun _ => resultsOf callee.outputs) := by
  unfold Lowering.inline Body.build
  rw [lowerAll_congr]
  intro id node inner found kind
  have less := Callable.depth_lt_depth (same ▸ found) kind
  funext innerBody
  rw [if_pos less]

/-- Every callable can be inlined. The induction is on how deep its calls are nested. -/
theorem inlines_inline {callee : Callable} (built : callee.Built) :
    Inlines Lowering.inline callee := by
  induction depth : callee.depth using Nat.strong_induction_on generalizing callee with
  | _ depth ih =>
      subst depth
      intro body exprs sameBody sameTypes arguments
      have checked : body.wired.Checked callee.schedule.order body.types := by
        rw [sameBody, sameTypes]
        exact built.checked
      have inner : ∀ id node inner, body.wired.node? id = some node →
          node.kind = .call (.resolved inner) → Inlines Lowering.inline inner := by
        intro id node inner found kind
        have less := Callable.depth_lt_depth (sameBody ▸ found) kind
        exact ih inner.depth less (checked.coherent.callees found inner kind) rfl
      obtain ⟨builder, ran, sound, known⟩ :=
        lowerAll_start checked (List.append_nil _).symm inner arguments
      have lowered : ∀ formal ∈ callee.outputs,
          ∃ expr, builder.nodes.find? formal.node = some expr := by
        intro formal member
        obtain ⟨_, _, collected⟩ := built.collected
        obtain ⟨_, node, name, accepts, found, kind, _⟩ := collected.outputs formal member
        rcases known formal.node (built.output_scheduled member) node (sameBody ▸ found) with
          lowered | ⟨block, isBlock⟩
        · exact lowered
        · cases kind.symm.trans isBlock
      obtain ⟨outputs, last, ranResults, soundLast, grown, _, represents⟩ :=
        delivers_resultsOf sound lowered
      refine ⟨outputs, last.exprs, ?_, soundLast.grown, soundLast.ordered, represents,
        fun expr => soundLast.placed⟩
      rw [inline_eq_build sameBody]
      unfold apart Body.build
      rw [bind_of_ok ran, ranResults]

theorem build_run {order done later : List NodeId}
    (checked : body.wired.Checked order body.types) (split : order = done ++ later)
    (arguments : ∀ id expr, body.arguments.find? id = some expr → expr < start.length) :
    ∃ next, body.build done (.ofExprs start) = .ok () next ∧ Sound body start next ∧
      Known body done next.nodes := by
  have inlines : ∀ id node callee, body.wired.node? id = some node →
      node.kind = .call (.resolved callee) → Inlines Lowering.inline callee := by
    intro id node callee found kind
    exact inlines_inline (checked.coherent.callees found callee kind)
  exact lowerAll_start checked split inlines arguments

section Results

variable {root : NodeId} {node : MaterialNode}

theorem delivers_addUse (sound : Sound body start builder) (expr : ExprId) :
    Delivers body start (addUse expr) builder (fun _ _ => True) := by
  have grown := ExprList.extends_addUse builder.exprs expr
  have none : ∀ other, builder.exprs.length ≤ other →
      ¬other < (builder.exprs.addUse expr).length := by
    intro other from_ below
    rw [ExprList.length_addUse] at below
    omega
  exact ⟨(), _, rfl, sound.extend grown
    (fun other _ _ from_ held => absurd held.lt_length (none other from_))
    (fun from_ below => absurd below (none _ from_)), grown, rfl, trivial⟩

theorem delivers_connected (sound : Sound body start builder) (coherent : body.wired.Coherent)
    (found : body.wired.node? root = some node) (valid : Typing.Valid body.wired root)
    (supplied : Supplied builder.nodes node) {slots : List InputSlot}
    (listed : slots ⊆ node.inputs) :
    Delivers body start (body.connected root slots) builder
      (fun results exprs => List.Forall₂
        (fun (slot : InputSlot) (result : Result) => result.name = slot.name ∧
          Represents exprs body (.input root slot.id) result.expr)
        (slots.filter fun slot => slot.binding.isSome) results) := by
  induction slots generalizing builder with
  | nil => exact Delivers.pure sound List.Forall₂.nil
  | cons slot rest ih =>
      have later := fun {next : Builder} (soundNext : Sound body start next)
          (kept : next.nodes = builder.nodes) =>
        ih soundNext (kept ▸ supplied) fun other member => listed (List.mem_cons_of_mem _ member)
      unfold Body.connected
      cases bound : slot.binding with
      | none => simpa [bound] using later sound rfl
      | some binding =>
          simp only [Option.isNone_some, Bool.false_eq_true, if_false]
          have fed := delivers_inputOf (recalls_demandWithin body Lowering.inline
            body.wired.graph.nodes.length) sound coherent found valid supplied
            (listed List.mem_cons_self)
          apply fed.bind
          intro result first soundFirst _ keptFirst holds
          cases result with
          | none => cases bound.symm.trans holds.1
          | some expr =>
              apply (delivers_addUse soundFirst expr).bind
              intro _ second soundSecond grownSecond keptSecond _
              apply (later soundSecond (keptSecond.trans keptFirst)).bind
              intro results third soundThird grownThird _ reported
              have represents : Represents first.exprs body (.input root slot.id) expr := holds
              rw [List.filter_cons_of_pos (by simp [bound])]
              exact Delivers.pure soundThird (List.Forall₂.cons
                ⟨rfl, (represents.extend grownSecond).extend grownThird⟩ reported)

theorem delivers_exposed (sound : Sound body start builder) (coherent : body.wired.Coherent)
    (found : body.wired.node? root = some node) (valid : Typing.Valid body.wired root)
    {value : ExprId} (known : builder.nodes.find? root = some value) {slots : List OutputSlot}
    (listed : slots ⊆ node.outputs) :
    Delivers body start (body.exposed root slots) builder
      (fun results exprs => List.Forall₂
        (fun (slot : OutputSlot) (result : Result) => result.name = slot.name ∧
          Represents exprs body (.output root slot.id) result.expr) slots results) := by
  induction slots generalizing builder with
  | nil => exact Delivers.pure sound List.Forall₂.nil
  | cons slot rest ih =>
      unfold Body.exposed
      have slotFound := coherent.output?_of_mem found (listed List.mem_cons_self)
      have output := delivers_outputOf (recalls_demandWithin body Lowering.inline
        body.wired.graph.nodes.length) sound found slotFound valid known
      apply output.bind
      intro expr first soundFirst _ keptFirst represents
      apply (delivers_addUse soundFirst expr).bind
      intro _ second soundSecond grownSecond keptSecond _
      have later := ih soundSecond (by rw [keptSecond, keptFirst, known])
        fun other member => listed (List.mem_cons_of_mem _ member)
      apply later.bind
      intro results third soundThird grownThird _ reported
      exact Delivers.pure soundThird (List.Forall₂.cons
        ⟨rfl, (represents.extend grownSecond).extend grownThird⟩ reported)

def Reported (exprs : ExprList) (body : Body) (root : NodeId) (node : MaterialNode)
    (results : List Result) : Prop :=
  match node.kind with
  | .output _ =>
      List.Forall₂ (fun (slot : InputSlot) (result : Result) => result.name = slot.name ∧
          Represents exprs body (.input root slot.id) result.expr)
        (node.inputs.filter fun slot => slot.binding.isSome) results
  | _ =>
      List.Forall₂ (fun (slot : OutputSlot) (result : Result) => result.name = slot.name ∧
          Represents exprs body (.output root slot.id) result.expr)
        node.outputs results

theorem delivers_results {order : List NodeId} (checked : body.wired.Checked order body.types)
    (sound : Sound body start builder) (known : Known body order builder.nodes)
    (member : root ∈ order) (found : body.wired.node? root = some node) :
    Delivers body start (body.results root) builder
      (fun results exprs => Reported exprs body root node results) := by
  have coherent := checked.coherent
  have valid := checked.valid root member
  unfold Body.results Reported
  simp only [found]
  by_cases isBlock : ∃ block, node.kind = .output block
  · obtain ⟨block, kind⟩ := isBlock
    simp only [kind]
    obtain ⟨before, after, split⟩ := List.append_of_mem member
    have supplied : Supplied builder.nodes node := by
      apply known.supplied coherent found
      intro input slot binding bound
      rw [split]
      exact List.mem_append_left _
        (checked.ordered before root after split node found input slot binding bound)
    exact delivers_connected sound coherent found valid supplied (List.Subset.refl _)
  · obtain ⟨value, lowered⟩ := (known root member node found).resolve_right isBlock
    have outputs := delivers_exposed sound coherent found valid lowered (List.Subset.refl _)
    cases kind : node.kind with
    | output block => exact absurd ⟨block, kind⟩ isBlock
    | _ => exact outputs

end Results

end Lowering

namespace Wired

open Lowering

/-- Lowering a scheduled and checked root succeeds; what it gives stands for the graph. -/
theorem lowerRoot_eq_ok {wired : WiredMaterial} {schedule : Schedule} {types : TypeTable}
    (checked : wired.Checked schedule.order types) {root : NodeId} {node : MaterialNode}
    (member : root ∈ schedule.order) (found : wired.node? root = some node) :
    ∃ builder results, wired.lowerRoot schedule types root = .ok (builder.exprs, results) ∧
      Sound (.top wired types) [] builder ∧
      Reported builder.exprs (.top wired types) root node results := by
  have arguments : ∀ id expr, (Body.top wired types).arguments.find? id = some expr →
      expr < ([] : ExprList).length := by simp [Body.top]
  obtain ⟨middle, ran, soundMiddle, known⟩ :=
    build_run checked (List.append_nil schedule.order).symm arguments
  obtain ⟨results, builder, ranResults, soundLast, _, _, reported⟩ :=
    delivers_results checked soundMiddle known member found
  refine ⟨builder, results, ?_, soundLast, reported⟩
  unfold lowerRoot
  simp only [bind_of_ok ran, ranResults]

theorem compileRoot_eq_ok {wired : WiredMaterial} {policy : ErrorPolicy} {root : NodeId}
    {compiled : CompiledRoot} (ok : wired.compileRoot policy root = .ok compiled) :
    wired.graph.contains root = true ∧ wired.schedule [root] = .ok compiled.schedule ∧
      wired.unresolvedCall? compiled.schedule.order = none ∧
      Typing.checkAll wired (policy = .abortOnFirst) compiled.schedule.order [] =
        (compiled.types, []) ∧
      wired.lowerRoot compiled.schedule compiled.types root =
        .ok (compiled.exprs, compiled.results) := by
  unfold compileRoot at ok
  split at ok
  · cases ok
  rename_i known
  split at ok
  · cases ok
  rename_i schedule scheduled
  split at ok
  · cases ok
  rename_i resolved
  split at ok
  · rename_i types checked
    split at ok
    · cases ok
    rename_i exprs results lowered
    split at ok
    · cases ok
    · cases ok
      exact ⟨by simpa using known, scheduled, resolved, checked, lowered⟩
  · cases ok

/-- What compiling a root gives: checked nodes, and expressions that stand for them. -/
theorem compiled_sound {wired : WiredMaterial} (coherent : wired.Coherent) {policy : ErrorPolicy}
    {root : NodeId} {compiled : CompiledRoot}
    (ok : wired.compileRoot policy root = .ok compiled) :
    wired.Checked compiled.schedule.order compiled.types ∧ root ∈ compiled.schedule.order ∧
      compiled.exprs.OrderedFrom 0 ∧
      (∀ expr, expr < compiled.exprs.length →
        Placed compiled.exprs (.top wired compiled.types) expr) ∧
      ∃ node, wired.node? root = some node ∧
        Reported compiled.exprs (.top wired compiled.types) root node compiled.results := by
  obtain ⟨known, scheduled, resolved, clean, lowered⟩ := compileRoot_eq_ok ok
  have checked := checked_of_checkAll coherent scheduled resolved clean
  obtain ⟨node, found⟩ := Graph.contains_iff.1 known
  have member : root ∈ compiled.schedule.order := (mem_order scheduled).2
    ⟨root, List.mem_singleton_self root, known, Relation.ReflTransGen.refl⟩
  obtain ⟨builder, results, loweredToo, sound, reported⟩ := lowerRoot_eq_ok checked member found
  have same := Except.ok.inj (loweredToo.symm.trans lowered)
  have exprs : builder.exprs = compiled.exprs := congrArg Prod.fst same
  have reports : results = compiled.results := congrArg Prod.snd same
  rw [exprs, reports] at reported
  refine ⟨checked, member, exprs ▸ sound.ordered, ?_, node, found, reported⟩
  intro expr below
  rw [← exprs] at below ⊢
  exact sound.placed (Nat.zero_le expr) below

end Wired

namespace Sample

/-- A graph that doubles a uniform by a call and feeds it to a port of an output block. -/
def caller (digest : Digest) : Material :=
  ((Graph.empty "Main").insert (.ofKind 10 (.constant (.scalar .one) (some "gain"))))
    |>.insert (.ofKind 11 (.call (.resolved (callee digest))))
    |>.insert (.ofKind 12 (.output .unlit))
    |>.connect ⟨10, 0, 11, 0⟩
    |>.connect ⟨11, 0, 12, 1⟩

def callerWired (digest : Digest) : WiredMaterial :=
  match (caller digest).wire .strict with
  | .ok wired => wired
  | .error _ => .bare (caller digest)

theorem caller_built {digest : Digest} (built : (callee digest).Built) :
    (caller digest).Built := by
  refine Graph.Built.connect (Graph.Built.connect ?_ _) _
  refine Graph.Built.insert (Graph.Built.insert (Graph.Built.insert (Graph.Built.empty _)
    (.new _ _) ?_) (.new _ _) ?_) (.new _ _) ?_ <;> intro inner isCall <;> cases isCall
  exact built

theorem caller_wire (digest : Digest) :
    (caller digest).wire .strict = .ok (callerWired digest) := rfl

theorem caller_compiles :
    ∃ compiled, (callerWired calleeDigest).compileRoot .collectAll 12 = .ok compiled := by
  have succeeds : ((callerWired calleeDigest).compileRoot .collectAll 12).isOk = true := by
    decide +kernel
  cases outcome : (callerWired calleeDigest).compileRoot .collectAll 12 with
  | ok compiled => exact ⟨compiled, rfl⟩
  | error error =>
      rw [outcome] at succeeds
      cases succeeds

end Sample

end MaterialGraph
