import MaterialGraph.Proofs.Lowering.Invariant
import MaterialGraph.Proofs.Texts

/-!
Names of uniforms. A node that makes a parameter is lowered to a uniform whose name is its own
behind a prefix for each call on the way to it. Two nodes share a uniform if they stand in one scope
and have one name, and otherwise only if the name of the one that lies further out spells the
prefixes of the calls in between.
-/

set_option autoImplicit false

namespace MaterialGraph

namespace Lowering

def callPrefix (call : NodeId) : String := "call" ++ toString call.toNat ++ "_"

def scopeOf (path : List NodeId) : String := String.join (path.map callPrefix)

theorem scopeOf_cons (call : NodeId) (path : List NodeId) :
    scopeOf (call :: path) = callPrefix call ++ scopeOf path := by
  unfold scopeOf
  rw [List.map_cons, String.join_cons]

theorem scopeOf_append (path more : List NodeId) :
    scopeOf (path ++ more) = scopeOf path ++ scopeOf more := by
  unfold scopeOf
  rw [List.map_append, String.join_append]

theorem scope_called (body : Body) (call : NodeId) (callee : Callable)
    (arguments : Table NodeId ExprId) :
    (body.called call callee arguments).scope = body.scope ++ callPrefix call := by
  simp [Body.called, callPrefix, String.append_assoc]

/-- The number of a call ends at the underscore, so that it can be read off its prefix. -/
theorem callPrefix_append_inj {left right : NodeId} {rest more : String}
    (same : callPrefix left ++ rest = callPrefix right ++ more) : left = right ∧ rest = more := by
  have letters := congrArg String.toList same
  simp only [callPrefix, String.toList_append, List.append_assoc,
    List.append_cancel_left_eq] at letters
  have free : ∀ number : Nat, '_' ∉ (toString number).toList := by
    intro number member
    have digit := isDigit_of_mem_toString member
    revert digit
    decide
  obtain ⟨numbers, others⟩ := append_mark_inj (free _) (free _) letters
  exact ⟨UInt32.toNat_inj.1 (toString_nat_inj (String.toList_inj.1 numbers)),
    String.toList_inj.1 others⟩

/-- A node that makes a parameter: the calls that lead to it, the outermost first, its identifier
in the graph it is in, and the name that its author gave it, if any. -/
structure Site where
  path : List NodeId
  id : NodeId
  given : Option String
deriving DecidableEq, Repr

namespace Site

def name (site : Site) : String := site.given.getD ("arg_" ++ toString site.id.toNat)

def uniform (site : Site) : String := scopeOf site.path ++ site.name

/-- A name that spells the calls from its own scope to another one, and the name there. -/
def Spells (outer inner : Site) : Prop :=
  ∃ calls, calls ≠ [] ∧ inner.path = outer.path ++ calls ∧ outer.name = scopeOf calls ++ inner.name

end Site

/-- Prefixes can be told apart as far as both go. -/
theorem scopeOf_append_eq_iff {left right : List NodeId} {name other : String} :
    scopeOf left ++ name = scopeOf right ++ other ↔
      (∃ calls, right = left ++ calls ∧ name = scopeOf calls ++ other) ∨
        ∃ calls, left = right ++ calls ∧ other = scopeOf calls ++ name := by
  have empty : scopeOf [] = "" := rfl
  induction left generalizing right with
  | nil =>
      constructor
      · intro same
        rw [empty, String.empty_append] at same
        exact Or.inl ⟨right, rfl, same⟩
      · rintro (⟨calls, rfl, rfl⟩ | ⟨calls, whole, rfl⟩)
        · rw [empty, String.empty_append]
        · obtain ⟨rfl, rfl⟩ := List.append_eq_nil_iff.1 whole.symm
          rfl
  | cons call rest induction =>
      cases right with
      | nil =>
          constructor
          · intro same
            rw [empty, String.empty_append] at same
            exact Or.inr ⟨call :: rest, rfl, same.symm⟩
          · rintro (⟨calls, whole, _⟩ | ⟨calls, rfl, rfl⟩)
            · cases whole
            · rw [empty, String.empty_append]
      | cons second others =>
          rw [scopeOf_cons, scopeOf_cons, String.append_assoc, String.append_assoc]
          constructor
          · intro same
            obtain ⟨rfl, later⟩ := callPrefix_append_inj same
            refine (induction.1 later).imp ?_ ?_
            · rintro ⟨calls, rfl, spelled⟩
              exact ⟨calls, rfl, spelled⟩
            · rintro ⟨calls, rfl, spelled⟩
              exact ⟨calls, rfl, spelled⟩
          · rintro (⟨calls, whole, spelled⟩ | ⟨calls, whole, spelled⟩)
            · obtain ⟨rfl, behind⟩ := List.cons.inj whole
              rw [induction.2 (Or.inl ⟨calls, behind, spelled⟩)]
            · obtain ⟨rfl, behind⟩ := List.cons.inj whole
              rw [induction.2 (Or.inr ⟨calls, behind, spelled⟩)]

theorem Site.uniform_eq_iff {first second : Site} :
    first.uniform = second.uniform ↔
      (first.path = second.path ∧ first.name = second.name) ∨ first.Spells second ∨
        second.Spells first := by
  have empty : ∀ text : String, scopeOf [] ++ text = text := fun _ => String.empty_append
  unfold uniform
  rw [scopeOf_append_eq_iff]
  constructor
  · rintro (⟨calls, path, spelled⟩ | ⟨calls, path, spelled⟩)
    · by_cases none : calls = []
      · subst none
        rw [List.append_nil] at path
        rw [empty] at spelled
        exact Or.inl ⟨path.symm, spelled⟩
      · exact Or.inr (Or.inl ⟨calls, none, path, spelled⟩)
    · by_cases none : calls = []
      · subst none
        rw [List.append_nil] at path
        rw [empty] at spelled
        exact Or.inl ⟨path, spelled.symm⟩
      · exact Or.inr (Or.inr ⟨calls, none, path, spelled⟩)
  · rintro (⟨path, names⟩ | ⟨calls, _, path, spelled⟩ | ⟨calls, _, path, spelled⟩)
    · exact Or.inl ⟨[], by rw [List.append_nil, path], by rw [empty, names]⟩
    · exact Or.inl ⟨calls, path, spelled⟩
    · exact Or.inr ⟨calls, path, spelled⟩

/-- A node of a body that makes a parameter, with the name its author gave it: a named constant, or
a formal input that no argument is given for. -/
inductive Produces (body : Body) (id : NodeId) : Option String → Prop
  | constant {node : MaterialNode} {value : Literal} {name : String} :
      body.wired.node? id = some node → node.kind = .constant value (some name) →
      Produces body id (some name)
  | input {node : MaterialNode} {name : Option String} {type : ValueType}
      {default : Option Literal} {zero : Literal} :
      body.wired.node? id = some node → node.kind = .functionInput name type default →
      body.arguments.find? id = none → Literal.zero? type = some zero → Produces body id name

/-- The bodies that were lowered for a root, with the calls that lead to them, their schedules, and
the builders that lowering them ended with. -/
inductive Route (wired : WiredMaterial) (types : TypeTable) (schedule : List NodeId) :
    List NodeId → Body → List NodeId → Builder → Prop
  | top {builder : Builder} : (Body.top wired types).build schedule (.ofExprs []) = .ok () builder →
      Route wired types schedule [] (.top wired types) schedule builder
  | call {path order : List NodeId} {body : Body} {builder last : Builder} {id : NodeId}
      {node : MaterialNode} {callee : Callable} {arguments : Table NodeId ExprId}
      {start : ExprList} :
      Route wired types schedule path body order builder → id ∈ order →
      body.wired.node? id = some node → node.kind = .call (.resolved callee) →
      Startable (body.called id callee arguments) start →
      (body.called id callee arguments).build callee.schedule.order (.ofExprs start) =
        .ok () last →
      last.exprs.Extends builder.exprs →
      Route wired types schedule (path ++ [id]) (body.called id callee arguments)
        callee.schedule.order last

namespace Route

variable {wired : WiredMaterial} {types : TypeTable} {schedule path order : List NodeId}
  {body : Body} {builder : Builder}

theorem settled (route : Route wired types schedule path body order builder) :
    Consistent body builder ∧ Settled body order builder := by
  cases route with
  | top built =>
      obtain ⟨consistent, _, settled⟩ :=
        keeps_build (.ofExprs (wired.startable_top types)) schedule _ _ built
      exact ⟨consistent, settled⟩
  | call _ _ _ _ startable built _ =>
      obtain ⟨consistent, _, settled⟩ := keeps_build (.ofExprs startable) _ _ _ built
      exact ⟨consistent, settled⟩

theorem scope_eq (route : Route wired types schedule path body order builder) :
    body.scope = scopeOf path := by
  induction route with
  | top _ => rfl
  | @call path _ body _ _ id _ callee arguments _ _ _ _ _ _ _ _ induction =>
      rw [scope_called, induction, scopeOf_append, scopeOf_cons]
      exact congrArg (scopeOf path ++ ·) (String.append_empty).symm

/-- What was made for any body is still there when the root's own nodes are lowered. -/
theorem extends_top (route : Route wired types schedule path body order builder) {whole : Builder}
    (built : (Body.top wired types).build schedule (.ofExprs []) = .ok () whole) :
    builder.exprs.Extends whole.exprs := by
  induction route with
  | top builtToo =>
      cases built.symm.trans builtToo
      exact .refl _
  | call _ _ _ _ _ _ grown induction => exact grown.trans induction

theorem exists_stands (route : Route wired types schedule path body order builder) {id : NodeId}
    (member : id ∈ order) {node : MaterialNode} (found : body.wired.node? id = some node)
    (plain : ∀ block, node.kind ≠ .output block) :
    ∃ expr, builder.nodes.find? id = some expr ∧ Stands body builder.exprs node expr := by
  obtain ⟨consistent, settled⟩ := route.settled
  rcases settled id member with ⟨expr, known⟩ | ⟨other, block, foundOther, isBlock⟩
  · exact ⟨expr, known, consistent.stands id expr node known found⟩
  · cases found.symm.trans foundOther
    exact absurd isBlock (plain block)

theorem exists_call (route : Route wired types schedule path body order builder) {id : NodeId}
    (member : id ∈ order) {node : MaterialNode} {callee : Callable}
    (found : body.wired.node? id = some node) (kind : node.kind = .call (.resolved callee)) :
    ∃ arguments last, Route wired types schedule (path ++ [id])
      (body.called id callee arguments) callee.schedule.order last := by
  obtain ⟨expr, _, stands⟩ := route.exists_stands member found (by simp [kind])
  unfold Stands at stands
  rw [kind, (Graph.mem_of_node? found).2] at stands
  obtain ⟨arguments, start, last, startable, built, grown⟩ := stands
  exact ⟨arguments, last, .call route member found kind startable built grown⟩

/-- A node that makes a parameter was lowered to the uniform of its site. -/
theorem exists_expr (route : Route wired types schedule path body order builder) {id : NodeId}
    (member : id ∈ order) {given : Option String} (produces : Produces body id given) :
    ∃ expr value type, builder.nodes.find? id = some expr ∧
      builder.exprs.Holds expr (.constant value (some (Site.uniform ⟨path, id, given⟩))) type := by
  have scope := route.scope_eq
  cases produces with
  | @constant node value name found kind =>
      obtain ⟨expr, known, stands⟩ := route.exists_stands member found (by simp [kind])
      unfold Stands at stands
      rw [kind] at stands
      have named : body.qualified name = Site.uniform ⟨path, id, some name⟩ := by
        rw [Body.qualified, scope]
        rfl
      refine ⟨expr, value, some value.type, known, ?_⟩
      rw [← named]
      exact stands
  | @input node name type default zero found kind free numeric =>
      obtain ⟨expr, known, stands⟩ := route.exists_stands member found (by simp [kind])
      unfold Stands at stands
      rw [kind, (Graph.mem_of_node? found).2] at stands
      have named : body.freeName id given = Site.uniform ⟨path, id, given⟩ := by
        rw [Body.freeName, Body.qualified, scope]
        rfl
      refine ⟨expr, default.getD zero, some type, known, ?_⟩
      rw [← named]
      exact stands free zero numeric

end Route

end Lowering

open Lowering

def CompiledRoot.Lowers (compiled : CompiledRoot) (wired : WiredMaterial) (site : Site)
    (uniform : String) : Prop :=
  ∃ body order builder expr value type,
    Route wired compiled.types compiled.schedule.order site.path body order builder ∧
      site.id ∈ order ∧ Produces body site.id site.given ∧
      builder.nodes.find? site.id = some expr ∧
      compiled.exprs.Holds expr (.constant value (some uniform)) type

namespace Wired

variable {wired : WiredMaterial} {policy : ErrorPolicy} {root : NodeId} {compiled : CompiledRoot}

theorem exists_route (ok : wired.compileRoot policy root = .ok compiled) :
    ∃ builder, Route wired compiled.types compiled.schedule.order [] (.top wired compiled.types)
      compiled.schedule.order builder := by
  obtain ⟨_, builder, built, _⟩ := exists_build ok
  exact ⟨builder, .top built⟩

theorem extends_of_route (ok : wired.compileRoot policy root = .ok compiled)
    {path order : List NodeId} {body : Body} {builder : Builder}
    (route : Route wired compiled.types compiled.schedule.order path body order builder) :
    builder.exprs.Extends compiled.exprs := by
  obtain ⟨_, whole, built, grown⟩ := exists_build ok
  exact (route.extends_top built).trans grown

theorem lowers_of_route (ok : wired.compileRoot policy root = .ok compiled)
    {path order : List NodeId} {body : Body} {builder : Builder}
    (route : Route wired compiled.types compiled.schedule.order path body order builder)
    {id : NodeId} (member : id ∈ order) {given : Option String}
    (produces : Produces body id given) :
    compiled.Lowers wired ⟨path, id, given⟩ (Site.uniform ⟨path, id, given⟩) := by
  obtain ⟨expr, value, type, known, held⟩ := route.exists_expr member produces
  exact ⟨body, order, builder, expr, value, type, route, member, produces, known,
    held.extend (extends_of_route ok route)⟩

/-- A site is lowered to the uniform that its path and its name spell. -/
theorem uniform_of_lowers (ok : wired.compileRoot policy root = .ok compiled) {site : Site}
    {uniform : String} (lowers : compiled.Lowers wired site uniform) : uniform = site.uniform := by
  obtain ⟨body, order, builder, expr, value, type, route, member, produces, known, held⟩ := lowers
  obtain ⟨other, otherValue, otherType, knownToo, heldToo⟩ := route.exists_expr member produces
  cases known.symm.trans knownToo
  obtain ⟨same, _⟩ := held.unique (heldToo.extend (extends_of_route ok route))
  cases same
  rfl

/-- In a compiled root, with calls nested to any depth, every node that makes a parameter is lowered
to a uniform. Two of them share it exactly if they stand in one scope and have one name, or if the
name of the outer one spells the calls that lead to the inner one and the name of that. -/
theorem compileRoot_scopes (ok : wired.compileRoot policy root = .ok compiled) :
    (∃ builder, Route wired compiled.types compiled.schedule.order [] (.top wired compiled.types)
      compiled.schedule.order builder) ∧
    (∀ path body order builder,
      Route wired compiled.types compiled.schedule.order path body order builder →
      (∀ id ∈ order, ∀ node callee, body.wired.node? id = some node →
        node.kind = .call (.resolved callee) →
        ∃ arguments last, Route wired compiled.types compiled.schedule.order (path ++ [id])
          (body.called id callee arguments) callee.schedule.order last) ∧
      ∀ id ∈ order, ∀ given, Produces body id given →
        ∃ uniform, compiled.Lowers wired ⟨path, id, given⟩ uniform) ∧
    ∀ first second uniform other, compiled.Lowers wired first uniform →
      compiled.Lowers wired second other →
      (uniform = other ↔ (first.path = second.path ∧ first.name = second.name) ∨
        first.Spells second ∨ second.Spells first) := by
  refine ⟨exists_route ok, ?_, ?_⟩
  · intro path body order builder route
    refine ⟨?_, ?_⟩
    · intro id member node callee found kind
      exact route.exists_call member found kind
    · intro id member given produces
      exact ⟨_, lowers_of_route ok route member produces⟩
  · intro first second uniform other lowersFirst lowersSecond
    rw [uniform_of_lowers ok lowersFirst, uniform_of_lowers ok lowersSecond]
    exact Site.uniform_eq_iff

end Wired

namespace Sample

def gain : Material :=
  ((Graph.empty "Gain").insert (.ofKind 1 (.constant (.scalar .one) (some "gain"))))
    |>.insert (.ofKind 2 (.functionOutput (some "y") .numeric))
    |>.connect ⟨1, 0, 2, 0⟩

def gainWired : WiredMaterial :=
  match gain.wire .strict with
  | .ok wired => wired
  | .error _ => .bare gain

def gainCallee (digest : Digest) : Callable :=
  .mk "Gain" "gain" gainWired ⟨[[2], [1]], [1, 2]⟩ [((1, 0), .scalar), ((2, 0), .scalar)] []
    [⟨0, "y", 2, .scalar, none⟩] digest

def gainDigest : Digest := gainWired.fingerprint (Callable.roots gain)

theorem gainCallee_made :
    Callable.ofGraph "gain" gain .strict = .ok (gainCallee gainDigest) := by
  have roots : Callable.roots gain = [2] := by cbv
  have ports : Callable.placeholders gain = [2] := by cbv
  rw [Callable.ofGraph_eq_ok_iff]
  refine ⟨gainWired, ⟨[[2], [1]], [1, 2]⟩, [((1, 0), .scalar), ((2, 0), .scalar)],
    ⟨[], [⟨0, "y", 2, .scalar, none⟩]⟩, rfl, ?_, rfl, rfl, ?_, rfl⟩
  · rw [roots]
    decide +kernel
  · rw [ports]
    rfl

/-- A graph that adds the uniform of a call to one of its own, which has the name that the call
gives the other. -/
def spelling (digest : Digest) : Material :=
  ((Graph.empty "Spelling").insert (.ofKind 10 (.constant (.scalar .one) (some "call11_gain"))))
    |>.insert (.ofKind 11 (.call (.resolved (gainCallee digest))))
    |>.insert (.ofKind 12 (.math .add))
    |>.connect ⟨10, 0, 12, 0⟩
    |>.connect ⟨11, 0, 12, 1⟩

def spellingWired (digest : Digest) : WiredMaterial :=
  match (spelling digest).wire .strict with
  | .ok wired => wired
  | .error _ => .bare (spelling digest)

theorem spelling_compiles :
    ∃ compiled, (spellingWired gainDigest).compileRoot .collectAll 12 = .ok compiled := by
  have succeeds : ((spellingWired gainDigest).compileRoot .collectAll 12).isOk = true := by
    decide +kernel
  cases outcome : (spellingWired gainDigest).compileRoot .collectAll 12 with
  | ok compiled => exact ⟨compiled, rfl⟩
  | error error =>
      rw [outcome] at succeeds
      cases succeeds

theorem spelling_lowers {compiled : CompiledRoot}
    (ok : (spellingWired gainDigest).compileRoot .collectAll 12 = .ok compiled) :
    compiled.Lowers (spellingWired gainDigest) ⟨[], 10, some "call11_gain"⟩ "call11_gain" ∧
      compiled.Lowers (spellingWired gainDigest) ⟨[11], 1, some "gain"⟩ "call11_gain" := by
  have scheduled : (spellingWired gainDigest).schedule [12] =
      .ok ⟨[[12], [10, 11]], [10, 11, 12]⟩ := by decide +kernel
  obtain ⟨_, scheduledToo, _⟩ := Wired.compileRoot_eq_ok ok
  have order : compiled.schedule.order = [10, 11, 12] :=
    congrArg Schedule.order (Except.ok.inj (scheduledToo.symm.trans scheduled))
  have outer : 10 ∈ compiled.schedule.order := by
    rw [order]
    decide
  have call : 11 ∈ compiled.schedule.order := by
    rw [order]
    decide
  obtain ⟨builder, route⟩ := Wired.exists_route ok
  obtain ⟨arguments, last, inner⟩ := route.exists_call call rfl rfl
  exact ⟨Wired.lowers_of_route ok route outer (.constant rfl rfl),
    Wired.lowers_of_route ok inner List.mem_cons_self (.constant rfl rfl)⟩

end Sample

namespace Wired

/-- A constant of a graph and one of a graph that it calls share a uniform, under different
names. -/
theorem scopes_not_isolated :
    ∃ digest compiled first second uniform,
      Callable.ofGraph "gain" Sample.gain .strict = .ok (Sample.gainCallee digest) ∧
      (Sample.spellingWired digest).compileRoot .collectAll 12 = .ok compiled ∧
      compiled.Lowers (Sample.spellingWired digest) first uniform ∧
      compiled.Lowers (Sample.spellingWired digest) second uniform ∧
      first.path ≠ second.path ∧ first.given ≠ second.given := by
  obtain ⟨compiled, ok⟩ := Sample.spelling_compiles
  obtain ⟨outer, inner⟩ := Sample.spelling_lowers ok
  exact ⟨_, compiled, _, _, _, Sample.gainCallee_made, ok, outer, inner, by decide, by decide⟩

/-- The name of the outer constant spells the call and the name of the inner one. -/
theorem compileRoot_scopes_spelling :
    ∃ digest compiled, (Sample.spellingWired digest).compileRoot .collectAll 12 = .ok compiled ∧
      (Site.Spells ⟨[], 10, some "call11_gain"⟩ ⟨[11], 1, some "gain"⟩ ∨
        Site.Spells ⟨[11], 1, some "gain"⟩ ⟨[], 10, some "call11_gain"⟩) := by
  obtain ⟨compiled, ok⟩ := Sample.spelling_compiles
  obtain ⟨outer, inner⟩ := Sample.spelling_lowers ok
  obtain ⟨_, _, shared⟩ := compileRoot_scopes ok
  refine ⟨_, compiled, ok, ?_⟩
  rcases (shared _ _ _ _ outer inner).1 rfl with ⟨same, _⟩ | spells
  · cases same
  · exact spells

end Wired

end MaterialGraph
