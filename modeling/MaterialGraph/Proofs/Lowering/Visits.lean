import MaterialGraph.Proofs.Expr.Uses
import MaterialGraph.Proofs.Lowering.Invariant
import Mathlib.Data.List.Perm.Basic

/-!
Which expression is made for what. Every body that is lowered, the one of a root or that of a call,
is visited once for each way of calls that leads to it; each node of it has at most one value, each
output slot at most one part, and each input slot at most one default. A node takes its operands
from what its input slots receive, which depends on their producers alone.
-/

set_option autoImplicit false

namespace MaterialGraph

theorem Table.find?_grown {Key Value : Type} [DecidableEq Key] {table more : Table Key Value}
    (grown : table <+: more) {key : Key} {value : Value} (found : table.find? key = some value) :
    more.find? key = some value := by
  obtain ⟨rest, rfl⟩ := grown
  rw [Table.find?_append, found]
  rfl

theorem Table.mem_keys_iff {Key Value : Type} [DecidableEq Key] {table : Table Key Value}
    {key : Key} : key ∈ table.keys ↔ ∃ value, table.find? key = some value := by
  rw [← Option.isSome_iff_exists, Option.isSome_iff_ne_none, ne_eq, Table.find?_eq_none_iff,
    not_not]

theorem Table.nodup_keys_insert {Key Value : Type} [DecidableEq Key] {table : Table Key Value}
    (distinct : table.keys.Nodup) (key : Key) (value : Value) :
    (table.insert key value).keys.Nodup := by
  by_cases known : key ∈ table.keys
  · have same : (table.insert key value).keys = table.keys := by
      clear distinct
      induction table with
      | nil => cases known
      | cons first rest induction =>
          rw [Table.insert.eq_2]
          split
          · rfl
          · rename_i different
            have later : key ∈ Table.keys rest :=
              (List.mem_cons.1 known).resolve_left (Ne.symm different)
            exact congrArg (first.1 :: ·) (induction later)
    rwa [same]
  · rw [Table.insert_of_notMem known, Table.keys, List.map_append]
    apply List.Nodup.append distinct (List.nodup_singleton key)
    intro other listed single
    obtain rfl : other = key := List.mem_singleton.1 single
    exact known listed

namespace Lowering

/-- A body that is lowered: the call nodes that lead to it, and what is remembered of it. -/
structure Visit where
  path : List NodeId
  body : Body
  builder : Builder

namespace Body

/-- Whether an expression is made for a node. Formal outputs pass on what feeds them, and formal
inputs the arguments that they stand for. -/
def makesFor (body : Body) (node : MaterialNode) : Bool :=
  match node.kind with
  | .output _ => false
  | .functionInput _ _ _ => (body.arguments.find? node.id).isNone
  | .functionOutput _ _ => false
  | _ => true

def makes (body : Body) (id : NodeId) : Bool := (body.wired.node? id).any body.makesFor

/-- The expressions that were made for the nodes of a body, for parts of their values, and for
defaults of their inputs. -/
def owned (body : Body) (builder : Builder) : List ExprId :=
  (builder.nodes.filter fun entry => body.makes entry.1).map Prod.snd ++
    (builder.projections.map Prod.snd ++ builder.literals.map Prod.snd)

def Receives (body : Body) (builder : Builder) (id : NodeId) (slot : SlotId)
    (value : Option ExprId) : Prop :=
  body.input id slot builder = .ok value builder

def Stated (body : Body) (exprs : ExprList) (id : NodeId) (name : Option String)
    (type : ValueType) (default : Option Literal) (value : ExprId) : Prop :=
  match body.arguments.find? id, Literal.zero? type with
  | some argument, _ => value = argument
  | none, some zero =>
      exprs.Holds value (.constant (default.getD zero) (some (body.freeName id name))) (some type)
  | none, none => exprs.Holds value (.texture (body.freeName id name)) (some .texture)

end Body

def Visit.owned (visit : Visit) : List ExprId := visit.body.owned visit.builder

/-- The value of a node, given what its input slots receive. The outputs of a call are values of
the nodes of its callee's body, which is visited on the way through the call. -/
def Takes (exprs : ExprList) (visits : List Visit) (path : List NodeId) (body : Body)
    (receives : SlotId → Option ExprId → Prop) (node : MaterialNode) (value : ExprId) : Prop :=
  match node.kind with
  | .output _ => False
  | .constant literal parameter =>
      exprs.Holds value (.constant literal (parameter.map body.qualified)) (some literal.type)
  | .textureRef name _ => exprs.Holds value (.texture (body.qualified name)) (some .texture)
  | .textureSample => ∃ image coordinate level,
      receives Kind.textureSlot (some image) ∧ receives Kind.coordinateSlot (some coordinate) ∧
        receives Kind.levelSlot level ∧
        exprs.Holds value (.sample image coordinate level) (some .vec4)
  | .math op => ∃ operands type,
      List.Forall₂ (fun (input : InputSlot) operand => receives input.id (some operand))
        node.inputs operands ∧
        exprs.Holds value (.math op operands) (some type)
  | .functionInput name type default => body.Stated exprs node.id name type default value
  | .functionOutput _ _ => receives 0 (some value)
  | .call (.resolved callee) => ∃ (arguments : Table NodeId ExprId) (outputs : List ExprId)
      (start : ExprList), ∃ inner ∈ visits,
        List.Forall₂ (fun (formal : Formal) (argument : NodeId × ExprId) =>
          argument.1 = formal.node ∧ receives formal.index (some argument.2))
          callee.inputs arguments ∧
        inner.path = path ++ [node.id] ∧ inner.body = body.called node.id callee arguments ∧
        inner.body.build callee.schedule.order (.ofExprs start) = .ok () inner.builder ∧
        List.Forall₂ (fun (formal : Formal) output =>
          inner.builder.nodes.find? formal.node = some output) callee.outputs outputs ∧
        exprs.Holds value (.call callee.name outputs) none
  | .call (.unresolved _ _) => False

namespace Visit

structure Faithful (exprs : ExprList) (visits : List Visit)
    (receives : NodeId → SlotId → Option ExprId → Prop) (visit : Visit) : Prop where
  distinct : visit.builder.nodes.keys.Nodup ∧ visit.builder.projections.keys.Nodup ∧
    visit.builder.literals.keys.Nodup
  nodes : ∀ id value, visit.builder.nodes.find? id = some value →
    ∃ node, visit.body.wired.node? id = some node ∧
      Takes exprs visits visit.path visit.body (receives id) node value
  projections : ∀ id slot expr, visit.builder.projections.find? (id, slot) = some expr →
    ∃ value node kind, visit.builder.nodes.find? id = some value ∧
      visit.body.wired.node? id = some node ∧ projection? node slot value = some kind ∧
      exprs.Holds expr kind ((node.output? slot).bind OutputSlot.type)
  literals : ∀ id slot expr, visit.builder.literals.find? (id, slot) = some expr →
    ∃ node input value, visit.body.wired.node? id = some node ∧ node.input? slot = some input ∧
      input.binding = none ∧ input.default = some value ∧
      exprs.Holds expr (.constant value none) (some value.type)

def Calls (visit : Visit) (id : NodeId) : Prop :=
  id ∈ visit.builder.nodes.keys ∧
    ∃ node callee, visit.body.wired.node? id = some node ∧ node.kind = .call (.resolved callee)

end Visit

/-- Visits that together make all expressions of a list: the first is that of the root, each other
one that of a call in one of them; no two come by the same way, each tells what was made for it, and
every expression was made once. -/
structure Shared (exprs : ExprList) (root : Visit) (calls : List Visit) : Prop where
  top : root.path = []
  called : ∀ visit ∈ calls, ∃ parent ∈ root :: calls, ∃ id, parent.Calls id ∧
    visit.path = parent.path ++ [id]
  distinct : ((root :: calls).map Visit.path).Nodup
  faithful : ∀ visit ∈ root :: calls,
    visit.Faithful exprs (root :: calls) (visit.body.Receives visit.builder)
  once : ((root :: calls).flatMap Visit.owned).Perm (List.range exprs.length)

section Growth

variable {exprs more : ExprList} {visits others : List Visit} {path : List NodeId} {body : Body}

theorem Body.Stated.extend {id : NodeId} {name : Option String} {type : ValueType}
    {default : Option Literal} {value : ExprId} (grown : exprs.Extends more)
    (stated : body.Stated exprs id name type default value) :
    body.Stated more id name type default value := by
  unfold Body.Stated at stated ⊢
  split
  · rename_i given
    rw [given] at stated
    exact stated
  · rename_i free zero
    rw [free, zero] at stated
    exact ExprList.Holds.extend grown stated
  · rename_i free zero
    rw [free, zero] at stated
    exact ExprList.Holds.extend grown stated

theorem Takes.mono {receives known : SlotId → Option ExprId → Prop} {node : MaterialNode}
    {value : ExprId} (grown : exprs.Extends more) (visited : visits ⊆ others)
    (knows : ∀ slot found, receives slot found → known slot found)
    (takes : Takes exprs visits path body receives node value) :
    Takes more others path body known node value := by
  unfold Takes at takes ⊢
  cases kind : node.kind with
  | output block =>
      rw [kind] at takes
      exact takes
  | constant literal parameter =>
      rw [kind] at takes
      exact ExprList.Holds.extend grown takes
  | textureRef name source =>
      rw [kind] at takes
      exact ExprList.Holds.extend grown takes
  | textureSample =>
      rw [kind] at takes
      obtain ⟨image, coordinate, level, atImage, atCoordinate, atLevel, held⟩ := takes
      exact ⟨image, coordinate, level, knows _ _ atImage, knows _ _ atCoordinate,
        knows _ _ atLevel, held.extend grown⟩
  | math op =>
      rw [kind] at takes
      obtain ⟨operands, type, atOperands, held⟩ := takes
      exact ⟨operands, type, atOperands.imp fun _ _ atOperand => knows _ _ atOperand,
        held.extend grown⟩
  | functionInput name type default =>
      rw [kind] at takes
      exact Body.Stated.extend grown takes
  | functionOutput name accepts =>
      rw [kind] at takes
      exact knows _ _ takes
  | call target =>
      rw [kind] at takes
      cases target with
      | unresolved path reason => exact takes
      | resolved callee =>
          obtain ⟨arguments, outputs, start, inner, member, atInputs, way, same, built, atOutputs,
            held⟩ := takes
          exact ⟨arguments, outputs, start, inner, visited member,
            atInputs.imp fun _ _ atInput => ⟨atInput.1, knows _ _ atInput.2⟩, way, same, built,
            atOutputs, held.extend grown⟩

theorem Visit.Faithful.mono {receives known : NodeId → SlotId → Option ExprId → Prop}
    {visit : Visit} (grown : exprs.Extends more) (visited : visits ⊆ others)
    (knows : ∀ id slot found, receives id slot found → known id slot found)
    (faithful : visit.Faithful exprs visits receives) : visit.Faithful more others known where
  distinct := faithful.distinct
  nodes := by
    intro id value found
    obtain ⟨node, atNode, takes⟩ := faithful.nodes id value found
    exact ⟨node, atNode, takes.mono grown visited (knows id)⟩
  projections := by
    intro id slot expr found
    obtain ⟨value, node, kind, atValue, atNode, projected, held⟩ :=
      faithful.projections id slot expr found
    exact ⟨value, node, kind, atValue, atNode, projected, held.extend grown⟩
  literals := by
    intro id slot expr found
    obtain ⟨node, input, value, atNode, atInput, unbound, given, held⟩ :=
      faithful.literals id slot expr found
    exact ⟨node, input, value, atNode, atInput, unbound, given, held.extend grown⟩

end Growth

structure Retains (old new : Builder) : Prop where
  nodes : old.nodes <+: new.nodes
  projections : old.projections <+: new.projections
  literals : old.literals <+: new.literals

namespace Retains

theorem refl (builder : Builder) : Retains builder builder :=
  ⟨List.prefix_rfl, List.prefix_rfl, List.prefix_rfl⟩

theorem trans {first middle last : Builder} (early : Retains first middle)
    (late : Retains middle last) : Retains first last :=
  ⟨early.nodes.trans late.nodes, early.projections.trans late.projections,
    early.literals.trans late.literals⟩

theorem mem_keys {old new : Builder} (retains : Retains old new) {id : NodeId}
    (member : id ∈ old.nodes.keys) : id ∈ new.nodes.keys := by
  obtain ⟨value, found⟩ := Table.mem_keys_iff.1 member
  exact Table.mem_keys_iff.2 ⟨value, Table.find?_grown retains.nodes found⟩

end Retains

def Carries (body : Body) (builder : Builder) (id : NodeId) (slot : SlotId) (expr : ExprId) :
    Prop :=
  ∃ value node, builder.nodes.find? id = some value ∧ body.wired.node? id = some node ∧
    match projection? node slot value with
    | none => expr = value
    | some _ => builder.projections.find? (id, slot) = some expr

def Finds (body : Body) (builder : Builder) (id : NodeId) (slot : SlotId)
    (value : Option ExprId) : Prop :=
  ∃ input, (body.wired.node? id).bind (fun node => node.input? slot) = some input ∧
    match input.binding, input.default with
    | some binding, _ => ∃ expr, value = some expr ∧
        Carries body builder binding.node binding.output expr
    | none, some _ => ∃ expr, value = some expr ∧ builder.literals.find? (id, slot) = some expr
    | none, none => value = none

section Finds

variable {body : Body} {old new builder : Builder} {id : NodeId} {slot : SlotId}

theorem Carries.grow {expr : ExprId} (retains : Retains old new)
    (carries : Carries body old id slot expr) : Carries body new id slot expr := by
  obtain ⟨value, node, atValue, atNode, here⟩ := carries
  refine ⟨value, node, Table.find?_grown retains.nodes atValue, atNode, ?_⟩
  split
  · rename_i whole
    rw [whole] at here
    exact here
  · rename_i projected
    rw [projected] at here
    exact Table.find?_grown retains.projections here

theorem Finds.grow {value : Option ExprId} (retains : Retains old new)
    (finds : Finds body old id slot value) : Finds body new id slot value := by
  obtain ⟨input, atSlot, here⟩ := finds
  refine ⟨input, atSlot, ?_⟩
  split
  · rename_i bound
    rw [bound] at here
    obtain ⟨expr, same, carries⟩ := here
    exact ⟨expr, same, carries.grow retains⟩
  · rename_i unbound given
    rw [unbound, given] at here
    obtain ⟨expr, same, found⟩ := here
    exact ⟨expr, same, Table.find?_grown retains.literals found⟩
  · rename_i unbound nothing
    rw [unbound, nothing] at here
    exact here

/-- Where a node has a value, asking for it gives the value and changes nothing. -/
theorem valueOf_of_known {inline : Inline} {value : ExprId}
    (known : builder.nodes.find? id = some value) :
    valueOf body inline id builder = .ok (some value) builder := by
  unfold valueOf demandWithin
  rw [get_bind, known]
  rfl

theorem Carries.output {exprs : ExprList} {visits : List Visit} {path : List NodeId}
    {receives : NodeId → SlotId → Option ExprId → Prop} {expr : ExprId}
    (faithful : Visit.Faithful exprs visits receives ⟨path, body, builder⟩)
    (carries : Carries body builder id slot expr) :
    body.output id slot builder = .ok expr builder := by
  obtain ⟨value, node, atValue, atNode, here⟩ := carries
  unfold Body.output outputOf
  rw [bind_of_ok (valueOf_of_known atValue)]
  simp only [get_bind]
  cases projected : projection? node slot value with
  | some kind =>
      rw [projected] at here
      simp only at here
      rw [here]
      rfl
  | none =>
      rw [projected] at here
      have plain : builder.projections.find? (id, slot) = none := by
        cases remembered : builder.projections.find? (id, slot) with
        | none => rfl
        | some other =>
            obtain ⟨_, _, _, atValueToo, atNodeToo, isPart, _⟩ :=
              faithful.projections id slot other remembered
            cases atValue.symm.trans atValueToo
            cases atNode.symm.trans atNodeToo
            cases projected.symm.trans isPart
      rw [plain, atNode]
      simp only [projected, here]
      rfl

theorem Finds.receives {exprs : ExprList} {visits : List Visit} {path : List NodeId}
    {receives : NodeId → SlotId → Option ExprId → Prop} {value : Option ExprId}
    (faithful : Visit.Faithful exprs visits receives ⟨path, body, builder⟩)
    (finds : Finds body builder id slot value) : body.Receives builder id slot value := by
  obtain ⟨input, atSlot, here⟩ := finds
  unfold Body.Receives Body.input inputOf
  simp only [atSlot]
  cases bound : input.binding with
  | some binding =>
      rw [bound] at here
      obtain ⟨expr, rfl, carries⟩ := here
      have output := carries.output faithful
      unfold Body.output at output
      simp only [map_eq_pure_bind, bind_of_ok output]
      rfl
  | none =>
      rw [bound] at here
      cases given : input.default with
      | some default =>
          rw [given] at here
          obtain ⟨expr, rfl, found⟩ := here
          simp only [map_eq_pure_bind, literalAt, bind_assoc, get_bind, found]
          rfl
      | none =>
          rw [given] at here
          rw [here]
          rfl

end Finds

end Lowering

end MaterialGraph
