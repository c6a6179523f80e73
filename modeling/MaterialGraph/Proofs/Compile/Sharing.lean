import Mathlib.Algebra.Group.Nat.Defs
import MaterialGraph.Proofs.Lowering.Accounting

/-!
A compiled root is a graph of shared expressions. They stand behind their operands, and each counts
how often it is held, by operands and by results. Every body is lowered once for each way of calls
that leads to it, and there every node once: each expression was made for one node, for one part of
a value or for one default, and input slots that are bound to one output receive one expression.
-/

set_option autoImplicit false

namespace MaterialGraph

def CompiledRoot.holders (compiled : CompiledRoot) (id : ExprId) : Nat :=
  compiled.exprs.operands.count id + (compiled.results.map Lowering.Result.expr).count id

namespace Lowering

variable {path : List NodeId} {body : Body} {start : Nat} {builder : Builder}
  {visits : List Visit} {taken : List ExprId} {root : NodeId}

/-- What a result of a root is: what a port of an output block receives, or what an output of any
other node carries. -/
def Body.Reports (body : Body) (builder : Builder) (root : NodeId) (result : Result) : Prop :=
  ∃ node, body.wired.node? root = some node ∧
    ((∃ slot ∈ node.inputs, result.name = slot.name ∧
        body.Receives builder root slot.id (some result.expr)) ∨
      ∃ slot ∈ node.outputs, result.name = slot.name ∧
        body.output root slot.id builder = .ok result.expr builder)

/-- What an input slot receives depends on what it is bound to alone. -/
theorem Body.receives_unique {id other : NodeId} {slot otherSlot : SlotId} {binding : Binding}
    {value found : Option ExprId} (bound : body.wired.binding? id slot = some binding)
    (boundToo : body.wired.binding? other otherSlot = some binding)
    (receives : body.Receives builder id slot value)
    (receivesToo : body.Receives builder other otherSlot found) : value = found := by
  have through : ∀ {id slot}, body.wired.binding? id slot = some binding →
      body.input id slot = some <$> body.output binding.node binding.output := by
    intro id slot bound
    unfold Wired.binding? at bound
    unfold Body.input inputOf
    cases atNode : body.wired.node? id with
    | none =>
        rw [atNode] at bound
        cases bound
    | some node =>
        cases atSlot : node.input? slot with
        | none => simp [atNode, atSlot] at bound
        | some input =>
            have here : input.binding = some binding := by simpa [atNode, atSlot] using bound
            simp [atSlot, here, Body.output]
  unfold Body.Receives at receives receivesToo
  rw [through bound] at receives
  rw [through boundToo] at receivesToo
  cases receives.symm.trans receivesToo
  rfl

/-- A body whose results are taken: each of these is counted as one more holder. -/
structure Counting (path : List NodeId) (body : Body) (start : Nat) (taken : List ExprId)
    (builder : Builder) (visits : List Visit) : Prop where
  tracked : Tracked path body start builder visits
  ordered : builder.exprs.OrderedFrom 0
  counted : builder.exprs.Counted taken
  made : ∀ id ∈ taken, id < builder.exprs.length

namespace Counting

theorem step {Value : Type} {sees : NodeId → Prop} {steps : Lower Value}
    {post : Value → Builder → Prop} {value : Value} {next : Builder}
    (counting : Counting path body start taken builder visits)
    (tracks : Tracks path body start sees steps builder post)
    (ran : steps builder = .ok value next) :
    ∃ more, Counting path body start taken next (visits ++ more) ∧ Retains builder next ∧
      post value next := by
  obtain ⟨more, tracked, remembers, _, holds⟩ := tracks visits value next counting.tracked ran
  refine ⟨more, ⟨tracked, remembers.exprs.ordered counting.ordered,
    remembers.exprs.counted counting.ordered counting.made counting.counted, ?_⟩,
    remembers.toRetains, holds⟩
  exact fun id member =>
    Nat.lt_of_lt_of_le (counting.made id member) remembers.exprs.grown.length_le

theorem addUse (counting : Counting path body start taken builder visits) {id : ExprId}
    (below : id < builder.exprs.length) :
    Counting path body start (id :: taken) { builder with exprs := builder.exprs.addUse id }
      visits := by
  have grown := ExprList.extends_addUse builder.exprs id
  have tracked := counting.tracked
  have retains : Retains builder { builder with exprs := builder.exprs.addUse id } :=
    ⟨List.prefix_rfl, List.prefix_rfl, List.prefix_rfl⟩
  refine ⟨⟨tracked.bounded.mono grown.length_le, tracked.grounded, ?_,
    tracked.calls_extend grown, tracked.called_retain retains, tracked.within, tracked.distinct,
    ?_⟩, ?_, counting.counted.addUse id, ?_⟩
  · have itself := tracked.itself.mono grown (List.Subset.refl _) fun _ _ _ finds => finds
    exact ⟨itself.distinct, itself.nodes, itself.projections, itself.literals⟩
  · rw [ExprList.length_addUse]
    exact tracked.fills
  · intro place kind type from_ held
    unfold ExprList.Holds at held
    rw [ExprList.contents_addUse] at held
    exact counting.ordered place kind type from_ held
  · rw [ExprList.length_addUse]
    exact List.forall_mem_cons.2 ⟨below, counting.made⟩

theorem connected {slots : List InputSlot} {results : List Result} {next : Builder}
    (counting : Counting path body start taken builder visits)
    (ran : body.connected root slots builder = .ok results next) :
    ∃ more, Counting path body start ((results.map Result.expr).reverse ++ taken) next
        (visits ++ more) ∧ Retains builder next ∧
      ∀ result ∈ results, ∃ slot ∈ slots, result.name = slot.name ∧
        Finds body next root slot.id (some result.expr) := by
  induction slots generalizing builder visits taken results with
  | nil =>
      cases ran
      exact ⟨[], by simpa using counting, .refl _, by simp⟩
  | cons slot rest induction =>
      unfold Body.connected at ran
      split at ran
      · obtain ⟨more, countingLast, retains, found⟩ := induction counting ran
        refine ⟨more, countingLast, retains, fun result member => ?_⟩
        obtain ⟨other, listed, held⟩ := found result member
        exact ⟨other, List.mem_cons_of_mem _ listed, held⟩
      · obtain ⟨value, first, ranInput, ranRest⟩ := exists_of_bind_eq_ok ran
        obtain ⟨more, countingFirst, retains, finds⟩ :=
          counting.step (tracks_inputOf (traces_valueOf path body start) root slot.id) ranInput
        cases value with
        | none =>
            obtain ⟨others, countingLast, retainsLast, found⟩ := induction countingFirst ranRest
            refine ⟨more ++ others, by rwa [← List.append_assoc], retains.trans retainsLast,
              fun result member => ?_⟩
            obtain ⟨other, listed, held⟩ := found result member
            exact ⟨other, List.mem_cons_of_mem _ listed, held⟩
        | some expr =>
            obtain ⟨_, second, ranUse, ranLater⟩ := exists_of_bind_eq_ok ranRest
            cases ranUse
            obtain ⟨later, last, ranResults, ended⟩ := exists_of_bind_eq_ok ranLater
            cases ended
            have below := countingFirst.tracked.bounded.finds finds
            obtain ⟨others, countingLast, retainsLast, found⟩ :=
              induction (countingFirst.addUse below) ranResults
            have retainsLast : Retains first _ := ⟨retainsLast.nodes, retainsLast.projections,
              retainsLast.literals⟩
            refine ⟨more ++ others, ?_, retains.trans retainsLast, ?_⟩
            · rw [← List.append_assoc]
              simpa using countingLast
            · intro result member
              rcases List.mem_cons.1 member with rfl | inside
              · exact ⟨slot, List.mem_cons_self, rfl, finds.grow retainsLast⟩
              · obtain ⟨other, listed, held⟩ := found result inside
                exact ⟨other, List.mem_cons_of_mem _ listed, held⟩

theorem exposed {slots : List OutputSlot} {results : List Result} {next : Builder}
    (counting : Counting path body start taken builder visits)
    (ran : body.exposed root slots builder = .ok results next) :
    ∃ more, Counting path body start ((results.map Result.expr).reverse ++ taken) next
        (visits ++ more) ∧ Retains builder next ∧
      ∀ result ∈ results, ∃ slot ∈ slots, result.name = slot.name ∧
        Carries body next root slot.id result.expr := by
  induction slots generalizing builder visits taken results with
  | nil =>
      cases ran
      exact ⟨[], by simpa using counting, .refl _, by simp⟩
  | cons slot rest induction =>
      unfold Body.exposed at ran
      obtain ⟨expr, first, ranOutput, ranRest⟩ := exists_of_bind_eq_ok ran
      obtain ⟨more, countingFirst, retains, carries⟩ :=
        counting.step (tracks_outputOf (traces_valueOf path body start) root slot.id) ranOutput
      obtain ⟨_, second, ranUse, ranLater⟩ := exists_of_bind_eq_ok ranRest
      cases ranUse
      obtain ⟨later, last, ranResults, ended⟩ := exists_of_bind_eq_ok ranLater
      cases ended
      have below := countingFirst.tracked.bounded.carries carries
      obtain ⟨others, countingLast, retainsLast, found⟩ :=
        induction (countingFirst.addUse below) ranResults
      have retainsLast : Retains first _ := ⟨retainsLast.nodes, retainsLast.projections,
        retainsLast.literals⟩
      refine ⟨more ++ others, ?_, retains.trans retainsLast, ?_⟩
      · rw [← List.append_assoc]
        simpa using countingLast
      · intro result member
        rcases List.mem_cons.1 member with rfl | inside
        · exact ⟨slot, List.mem_cons_self, rfl, carries.grow retainsLast⟩
        · obtain ⟨other, listed, held⟩ := found result inside
          exact ⟨other, List.mem_cons_of_mem _ listed, held⟩

theorem results {results : List Result} {next : Builder}
    (counting : Counting path body start taken builder visits)
    (ran : body.results root builder = .ok results next) :
    ∃ more, Counting path body start ((results.map Result.expr).reverse ++ taken) next
        (visits ++ more) ∧
      ∀ result ∈ results, body.Reports next root result := by
  cases atNode : body.wired.node? root with
  | none =>
      rw [Body.results, atNode] at ran
      cases ran
  | some node =>
      rw [Body.results, atNode] at ran
      have others : body.exposed root node.outputs builder = .ok results next →
          ∃ more, Counting path body start ((results.map Result.expr).reverse ++ taken) next
            (visits ++ more) ∧ ∀ result ∈ results, body.Reports next root result := by
        intro ran
        obtain ⟨more, countingLast, _, found⟩ := counting.exposed ran
        refine ⟨more, countingLast, fun result member => ⟨node, atNode, Or.inr ?_⟩⟩
        obtain ⟨slot, listed, named, carries⟩ := found result member
        exact ⟨slot, listed, named, carries.output countingLast.tracked.itself⟩
      simp only at ran
      cases kind : node.kind with
      | output block =>
          rw [kind] at ran
          obtain ⟨more, countingLast, _, found⟩ := counting.connected ran
          refine ⟨more, countingLast, fun result member => ⟨node, atNode, Or.inl ?_⟩⟩
          obtain ⟨slot, listed, named, finds⟩ := found result member
          exact ⟨slot, listed, named, finds.receives countingLast.tracked.itself⟩
      | _ =>
          rw [kind] at ran
          exact others ran

end Counting

/-- All visits of a root, once it is lowered. -/
theorem Tracked.shared (tracked : Tracked [] body 0 builder visits) :
    Shared builder.exprs ⟨[], body, builder⟩ visits where
  top := rfl
  called := tracked.called
  distinct := by
    apply nodup_cons_of_within _ tracked.distinct
    intro visit member
    obtain ⟨id, _, inside⟩ := tracked.within visit member
    exact ⟨id, inside⟩
  faithful := by
    have grown := ExprList.Extends.refl builder.exprs
    intro visit member
    rcases List.mem_cons.1 member with rfl | inside
    · have itself := tracked.itself
      exact itself.mono grown (List.subset_cons_self _ _)
        fun _ _ _ finds => finds.receives itself
    · have faithful := tracked.calls visit inside
      exact faithful.mono grown (List.subset_cons_self _ _)
        fun _ _ _ finds => finds.receives faithful
  once := by
    have fills := tracked.fills.2
    rwa [Nat.sub_zero, ← List.range_eq_range'] at fills

inductive Body.MadeFor (body : Body) (node : MaterialNode) : ExprKind → Option ValueType → Prop
  | constant {literal : Literal} {parameter : Option String} :
      node.kind = .constant literal parameter →
      MadeFor body node (.constant literal (parameter.map body.qualified)) (some literal.type)
  | textureRef {name : String} {source : Option String} : node.kind = .textureRef name source →
      MadeFor body node (.texture (body.qualified name)) (some .texture)
  | sample {image coordinate : ExprId} {level : Option ExprId} : node.kind = .textureSample →
      MadeFor body node (.sample image coordinate level) (some .vec4)
  | math {op : MathOp} {operands : List ExprId} {type : ValueType} : node.kind = .math op →
      MadeFor body node (.math op operands) (some type)
  | freeParameter {name : Option String} {type : ValueType} {default : Option Literal}
      {zero : Literal} : node.kind = .functionInput name type default →
      body.arguments.find? node.id = none → Literal.zero? type = some zero →
      MadeFor body node (.constant (default.getD zero) (some (body.freeName node.id name)))
        (some type)
  | freeTexture {name : Option String} {type : ValueType} {default : Option Literal} :
      node.kind = .functionInput name type default → body.arguments.find? node.id = none →
      Literal.zero? type = none →
      MadeFor body node (.texture (body.freeName node.id name)) (some .texture)
  | call {callee : Callable} {outputs : List ExprId} : node.kind = .call (.resolved callee) →
      MadeFor body node (.call callee.name outputs) none

theorem Takes.madeFor {exprs : ExprList} {visits : List Visit} {path : List NodeId} {body : Body}
    {receives : SlotId → Option ExprId → Prop} {node : MaterialNode} {value : ExprId}
    {kind : ExprKind} {type : Option ValueType}
    (takes : Takes exprs visits path body receives node value) (made : body.makesFor node = true)
    (held : exprs.Holds value kind type) : body.MadeFor node kind type := by
  have of_held : ∀ {madeKind : ExprKind} {madeType : Option ValueType},
      exprs.Holds value madeKind madeType → body.MadeFor node madeKind madeType →
      body.MadeFor node kind type := by
    intro madeKind madeType heldToo madeFor
    obtain ⟨rfl, rfl⟩ := held.unique heldToo
    exact madeFor
  unfold Takes at takes
  unfold Body.makesFor at made
  cases nodeKind : node.kind with
  | constant literal parameter =>
      rw [nodeKind] at takes
      exact of_held takes (.constant nodeKind)
  | textureRef name source =>
      rw [nodeKind] at takes
      exact of_held takes (.textureRef nodeKind)
  | textureSample =>
      rw [nodeKind] at takes
      obtain ⟨_, _, _, _, _, _, heldToo⟩ := takes
      exact of_held heldToo (.sample nodeKind)
  | math op =>
      rw [nodeKind] at takes
      obtain ⟨_, _, _, heldToo⟩ := takes
      exact of_held heldToo (.math nodeKind)
  | functionInput name inputType default =>
      rw [nodeKind] at takes made
      unfold Body.Stated at takes
      have free : body.arguments.find? node.id = none := by simpa using made
      simp only [free] at takes
      cases numeric : Literal.zero? inputType with
      | some zero =>
          rw [numeric] at takes
          exact of_held takes (.freeParameter nodeKind free numeric)
      | none =>
          rw [numeric] at takes
          exact of_held takes (.freeTexture nodeKind free numeric)
  | call target =>
      cases target with
      | unresolved path reason => simp [nodeKind] at takes
      | resolved callee =>
          rw [nodeKind] at takes
          obtain ⟨_, outputs, _, _, _, _, _, _, _, _, heldToo⟩ := takes
          exact of_held heldToo (.call nodeKind)
  | output block => simp [nodeKind] at made
  | functionOutput name accepts => simp [nodeKind] at made

theorem projection?_eq_some {node : MaterialNode} {slot : SlotId} {value : ExprId} {kind : ExprKind}
    (projected : projection? node slot value = some kind) :
    (∃ components, kind = .swizzle value components) ∨
      ∃ target, node.kind = .call target ∧ kind = .result value slot.toNat := by
  unfold projection? at projected
  grind

section Owned

variable {exprs : ExprList} {visits : List Visit} {visit : Visit}
  {receives : NodeId → SlotId → Option ExprId → Prop}

/-- An expression that a visit made is a node's value, a part of a node's value that an output
carries, or a default. -/
theorem Visit.cases_owned (faithful : visit.Faithful exprs visits receives) {id : ExprId}
    {kind : ExprKind} {type : Option ValueType} (held : exprs.Holds id kind type)
    (member : id ∈ visit.owned) :
    (∃ place node, place ∈ visit.builder.nodes.keys ∧
        visit.body.wired.node? place = some node ∧ visit.body.MadeFor node kind type) ∨
      (∃ place slot value node, visit.builder.projections.find? (place, slot) = some id ∧
        visit.builder.nodes.find? place = some value ∧ visit.body.wired.node? place = some node ∧
        projection? node slot value = some kind) ∨
      ∃ literal, kind = .constant literal none ∧ type = some literal.type := by
  rcases List.mem_append.1 member with atNode | inside
  · obtain ⟨⟨place, value⟩, entry, rfl⟩ := List.mem_map.1 atNode
    obtain ⟨listed, makes⟩ := List.mem_filter.1 entry
    have known := Table.find?_of_mem faithful.distinct.1 listed
    obtain ⟨node, found, takes⟩ := faithful.nodes place value known
    have made : visit.body.makesFor node = true := by simpa [Body.makes, found] using makes
    exact .inl ⟨place, node, Table.mem_keys_iff.2 ⟨value, known⟩, found, takes.madeFor made held⟩
  · rcases List.mem_append.1 inside with part | literal
    · obtain ⟨⟨⟨place, slot⟩, expr⟩, listed, rfl⟩ := List.mem_map.1 part
      have known := Table.find?_of_mem faithful.distinct.2.1 listed
      obtain ⟨value, node, madeKind, atValue, found, projected, heldToo⟩ :=
        faithful.projections place slot _ known
      obtain ⟨rfl, _⟩ := held.unique heldToo
      exact .inr (.inl ⟨place, slot, value, node, known, atValue, found, projected⟩)
    · obtain ⟨⟨⟨place, slot⟩, expr⟩, listed, rfl⟩ := List.mem_map.1 literal
      obtain ⟨_, _, value, _, _, _, _, heldToo⟩ := faithful.literals place slot expr
        (Table.find?_of_mem faithful.distinct.2.2 listed)
      obtain ⟨rfl, rfl⟩ := held.unique heldToo
      exact .inr (.inr ⟨value, rfl, rfl⟩)

theorem Visit.exists_call (faithful : visit.Faithful exprs visits receives)
    {id aggregate : ExprId} {index : Nat} {type : Option ValueType}
    (held : exprs.Holds id (.result aggregate index) type) (member : id ∈ visit.owned) :
    ∃ call slot, visit.builder.projections.find? (call, slot) = some id ∧
      (call, aggregate) ∈ visit.builder.nodes.filter (fun entry => visit.body.makes entry.1) ∧
      slot.toNat = index := by
  rcases visit.cases_owned faithful held member with ⟨_, _, _, _, madeFor⟩ | part | ⟨_, kind, _⟩
  · cases madeFor
  · obtain ⟨place, slot, value, node, known, atValue, found, projected⟩ := part
    rcases projection?_eq_some projected with ⟨components, isSwizzle⟩ | ⟨target, kind, isResult⟩
    · cases isSwizzle
    · cases isResult
      refine ⟨place, slot, known, List.mem_filter.2 ⟨Table.mem_of_find? atValue, ?_⟩, rfl⟩
      simp [Body.makes, found, Body.makesFor, kind]
  · cases kind

theorem Visit.isSome_type (faithful : visit.Faithful exprs visits receives) {id : ExprId}
    {expr : Expr} (found : exprs[id]? = some expr) (composite : expr.isComposite = true)
    (member : id ∈ visit.owned) : expr.type.isSome = true := by
  obtain ⟨kind, type, uses⟩ := expr
  have held : exprs.Holds id kind type := ExprList.holds_iff.2 ⟨_, found, rfl, rfl⟩
  unfold Expr.isComposite at composite
  rcases visit.cases_owned faithful held member with ⟨_, _, _, _, madeFor⟩ | part | ⟨_, _, typed⟩
  · cases madeFor with
    | call isCall => cases composite
    | _ => rfl
  · obtain ⟨place, slot, value, node, _, _, _, projected⟩ := part
    rcases projection?_eq_some projected with ⟨_, kind⟩ | ⟨_, _, kind⟩ <;> simp [kind] at composite
  · exact typed ▸ rfl

end Owned

theorem Shared.exists_owner {exprs : ExprList} {top : Visit} {calls : List Visit}
    (shared : Shared exprs top calls) {id : ExprId} (inside : id < exprs.length) :
    ∃ (place : Nat) (visit : Visit), (top :: calls)[place]? = some visit ∧ visit ∈ top :: calls ∧
      id ∈ visit.owned := by
  have listed := shared.once.mem_iff.2 (List.mem_range.2 inside)
  obtain ⟨visit, among, owned⟩ := List.mem_flatMap.1 listed
  obtain ⟨place, found⟩ := List.mem_iff_getElem?.1 among
  exact ⟨place, visit, found, among, owned⟩

theorem Shared.isSome_type {exprs : ExprList} {top : Visit} {calls : List Visit}
    (shared : Shared exprs top calls) {id : ExprId} {expr : Expr} (found : exprs[id]? = some expr)
    (composite : expr.isComposite = true) : expr.type.isSome = true := by
  obtain ⟨_, visit, _, among, owned⟩ :=
    shared.exists_owner (List.getElem?_eq_some_iff.1 found).1
  exact visit.isSome_type (shared.faithful visit among) found composite owned

/-- The outputs of a call are told apart by one node, which remembers one result for each. -/
theorem Shared.distinctResults {exprs : ExprList} {top : Visit} {calls : List Visit}
    (shared : Shared exprs top calls) : exprs.DistinctResults := by
  intro left right aggregate index type otherType first second
  have made : ∀ {id : ExprId} {type : Option ValueType},
      exprs.Holds id (.result aggregate index) type →
      ∃ (place : Nat) (visit : Visit), (top :: calls)[place]? = some visit ∧ ∃ call slot,
        visit.builder.projections.find? (call, slot) = some id ∧
        (call, aggregate) ∈ visit.builder.nodes.filter (fun entry => visit.body.makes entry.1) ∧
        slot.toNat = index := by
    intro id type held
    obtain ⟨place, visit, found, among, owned⟩ := shared.exists_owner held.lt_length
    exact ⟨place, visit, found, visit.exists_call (shared.faithful visit among) held owned⟩
  obtain ⟨place, visit, found, call, slot, known, entry, numbered⟩ := made first
  obtain ⟨other, visitToo, foundToo, callToo, slotToo, knownToo, entryToo, numberedToo⟩ :=
    made second
  -- The aggregate was made once, so both results are remembered in one visit, for one node.
  have distinct : ((top :: calls).flatMap Visit.owned).Nodup :=
    shared.once.nodup_iff.2 List.nodup_range
  have owned : ∀ {visit : Visit} {call : NodeId},
      (call, aggregate) ∈ visit.builder.nodes.filter (fun entry => visit.body.makes entry.1) →
      aggregate ∈ visit.owned := by
    intro visit call entry
    exact List.mem_append_left _ (List.mem_map.2 ⟨_, entry, rfl⟩)
  obtain rfl := eq_of_count_flatMap_le_one (List.nodup_iff_count_le_one.1 distinct aggregate)
    found (owned entry) foundToo (owned entryToo)
  cases found.symm.trans foundToo
  have inside := (List.nodup_flatMap.1 distinct).1 visit (List.mem_of_getElem? found)
  have once := (List.nodup_append.1 inside).1
  cases List.inj_on_of_nodup_map once entry entryToo rfl
  obtain rfl := UInt32.toNat_inj.1 (numbered.trans numberedToo.symm)
  exact Option.some.inj (known.symm.trans knownToo)

end Lowering

namespace Wired

open Lowering

theorem exists_counting {wired : WiredMaterial} {policy : ErrorPolicy} {root : NodeId}
    {compiled : CompiledRoot} (ok : wired.compileRoot policy root = .ok compiled) :
    ∃ builder calls,
      (do
        (Body.top wired compiled.types).build compiled.schedule.order
        (Body.top wired compiled.types).results root) (.ofExprs []) =
          .ok compiled.results builder ∧
      builder.exprs = compiled.exprs ∧
      Counting [] (.top wired compiled.types) 0 (compiled.results.map Result.expr).reverse builder
        calls ∧
      ∀ result ∈ compiled.results, (Body.top wired compiled.types).Reports builder root result := by
  obtain ⟨_, _, _, _, lowered⟩ := compileRoot_eq_ok ok
  unfold lowerRoot at lowered
  simp only at lowered
  split at lowered
  swap
  · cases lowered
  rename_i results builder whole
  obtain ⟨sameExprs, rfl⟩ := Prod.mk.inj (Except.ok.inj lowered)
  obtain ⟨_, middle, built, ranResults⟩ := exists_of_bind_eq_ok whole
  have begins : Counting [] (.top wired compiled.types) 0 [] (.ofExprs []) [] := by
    have arguments : Below (Body.top wired compiled.types).arguments ([] : ExprList).length :=
      below_nil
    exact ⟨.ofExprs [] arguments, (startable_top wired compiled.types).ordered, .nil, by simp⟩
  obtain ⟨_, countingBuilt, _, _⟩ := begins.step (tracks_build compiled.schedule.order) built
  obtain ⟨more, counting, reports⟩ := countingBuilt.results ranResults
  rw [List.append_nil] at counting
  exact ⟨builder, _, whole, sameExprs, counting, reports⟩

theorem exists_shared {wired : WiredMaterial} {policy : ErrorPolicy} {root : NodeId}
    {compiled : CompiledRoot} (ok : wired.compileRoot policy root = .ok compiled) :
    ∃ top calls, Shared compiled.exprs top calls := by
  obtain ⟨_, _, _, sameExprs, counting, _⟩ := exists_counting ok
  exact ⟨_, _, sameExprs ▸ counting.tracked.shared⟩

/-- The counter of an expression is the number of its holders, if it can count them. -/
theorem uses_eq_holders {wired : WiredMaterial} {policy : ErrorPolicy} {root : NodeId}
    {compiled : CompiledRoot} (ok : wired.compileRoot policy root = .ok compiled) {id : ExprId}
    {expr : Expr} (found : compiled.exprs[id]? = some expr) (few : compiled.holders id < 2 ^ 32) :
    expr.uses = compiled.holders id := by
  obtain ⟨builder, _, _, sameExprs, counting, _⟩ := exists_counting ok
  unfold CompiledRoot.holders at few ⊢
  rw [← sameExprs] at found
  rw [← sameExprs, ← List.count_reverse (l := compiled.results.map Result.expr)] at few ⊢
  exact counting.counted.uses_eq found few

/-- What is compiled for a root is a list of expressions behind their operands, each of which
counts its holders as long as these are fewer than its counter can count. It is made by visits that
share: there is one for each way of calls, every expression is made once in all of them, and input
slots of a visit that are bound to one output receive the same. -/
theorem compileRoot_shared {wired : WiredMaterial} {policy : ErrorPolicy} {root : NodeId}
    {compiled : CompiledRoot} (ok : wired.compileRoot policy root = .ok compiled) :
    (∀ id (expr : Expr), compiled.exprs[id]? = some expr →
      ∀ operand ∈ expr.kind.operands, operand < id) ∧
    (∀ result ∈ compiled.results, result.expr < compiled.exprs.length) ∧
    (∀ id (expr : Expr), compiled.exprs[id]? = some expr → compiled.holders id < 2 ^ 32 →
      expr.uses = compiled.holders id) ∧
    ∃ builder calls,
      (do
        (Body.top wired compiled.types).build compiled.schedule.order
        (Body.top wired compiled.types).results root) (.ofExprs []) =
          .ok compiled.results builder ∧
      builder.exprs = compiled.exprs ∧
      Shared compiled.exprs ⟨[], .top wired compiled.types, builder⟩ calls ∧
      (∀ result ∈ compiled.results,
        (Body.top wired compiled.types).Reports builder root result) ∧
      ∀ visit ∈ (⟨[], .top wired compiled.types, builder⟩ : Visit) :: calls,
        ∀ id slot other otherSlot binding,
          visit.body.wired.binding? id slot = some binding →
          visit.body.wired.binding? other otherSlot = some binding →
          ∀ value found, visit.body.Receives visit.builder id slot value →
            visit.body.Receives visit.builder other otherSlot found → value = found := by
  obtain ⟨builder, calls, whole, sameExprs, counting, reports⟩ := exists_counting ok
  refine ⟨?_, ?_, fun id expr => uses_eq_holders ok, builder, calls, whole, sameExprs,
    sameExprs ▸ counting.tracked.shared, reports, ?_⟩
  · intro id expr found operand member
    rw [← sameExprs] at found
    exact counting.ordered id _ _ (Nat.zero_le id)
      (ExprList.holds_iff.2 ⟨expr, found, rfl, rfl⟩) operand member
  · intro result member
    rw [← sameExprs]
    exact counting.made result.expr (List.mem_reverse.2 (List.mem_map_of_mem member))
  · intro visit _ id slot other otherSlot binding bound boundToo value found receives receivesToo
    exact Body.receives_unique bound boundToo receives receivesToo

end Wired

namespace Sample

theorem caller_holders :
    ((callerWired calleeDigest).compileRoot .collectAll 12).toOption.map (fun compiled =>
      (compiled.exprs.length, (List.range compiled.exprs.length).map compiled.holders)) =
      some (4, [2, 1, 1, 1]) := by
  decide +kernel

end Sample

namespace Wired

open Lowering

theorem compileRoot_shared_caller :
    ∃ digest compiled, (Sample.callerWired digest).compileRoot .collectAll 12 = .ok compiled ∧
      compiled.exprs.map Expr.uses = [2, 1, 1, 1] ∧
      ∃ builder calls,
        Shared compiled.exprs ⟨[], .top (Sample.callerWired digest) compiled.types, builder⟩
          calls := by
  obtain ⟨compiled, ok⟩ := Sample.caller_compiles
  obtain ⟨_, _, counts, builder, calls, _, _, shared, _⟩ := compileRoot_shared ok
  have evaluated := Sample.caller_holders
  rw [ok] at evaluated
  obtain ⟨length, holders⟩ := Prod.mk.inj (Option.some.inj evaluated)
  refine ⟨_, compiled, ok, ?_, builder, calls, shared⟩
  rw [← holders]
  apply List.ext_getElem
  · simp
  · intro id inside insideToo
    rw [List.length_map] at inside
    have listed : compiled.holders id ∈ [2, 1, 1, 1] := by
      rw [← holders]
      exact List.mem_map_of_mem (List.mem_range.2 inside)
    have few : compiled.holders id < 2 ^ 32 := by
      simp only [List.mem_cons, List.not_mem_nil, or_false] at listed
      omega
    simpa using counts id _ (List.getElem?_eq_getElem inside) few

end Wired

end MaterialGraph
