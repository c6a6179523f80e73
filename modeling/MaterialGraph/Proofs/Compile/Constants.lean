import MaterialGraph.Proofs.Callable.Storage
import MaterialGraph.Proofs.Compile.Parameters
import MaterialGraph.Proofs.Compile.Scopes
import MaterialGraph.Proofs.Compile.Sharing

/-!
Literals of constants. A literal of a node and the default of an input slot become constants of
their own types. A formal input that stands for no argument becomes a constant of the type that it
declares, whose literal is its default, and nothing compares the two. In the body of a callee every
formal input stands for an argument, so only those of the root's own graph can disagree.
-/

set_option autoImplicit false

namespace MaterialGraph

def Expr.fits (expr : Expr) : Bool :=
  match expr.kind with
  | .constant value _ => expr.type = some value.type
  | _ => true

/-- A formal input that declares another type than its default has, and is no texture. -/
def Wired.Disagrees (wired : WiredMaterial) (id : NodeId) (name : Option String)
    (type : ValueType) (value : Literal) : Prop :=
  ∃ node, wired.node? id = some node ∧ node.kind = .functionInput name type (some value) ∧
    type ≠ .texture ∧ value.type ≠ type

theorem Literal.exists_zero {type : ValueType} (numeric : type ≠ .texture) :
    ∃ zero, Literal.zero? type = some zero := by
  cases type with
  | texture => exact absurd rfl numeric
  | _ => exact ⟨_, rfl⟩

namespace Lowering

/-- A constant that a visit made has the type of its literal, or was made for a formal input that
stands for no argument. -/
theorem Visit.fits_or_free {exprs : ExprList} {visits : List Visit} {visit : Visit}
    {receives : NodeId → SlotId → Option ExprId → Prop}
    (faithful : visit.Faithful exprs visits receives) {id : ExprId} {value : Literal}
    {parameter : Option String} {type : Option ValueType}
    (held : exprs.Holds id (.constant value parameter) type) (member : id ∈ visit.owned) :
    type = some value.type ∨ ∃ node name declared default zero,
      node.id ∈ visit.builder.nodes.keys ∧ visit.body.wired.node? node.id = some node ∧
        node.kind = .functionInput name declared default ∧
        visit.body.arguments.find? node.id = none ∧ Literal.zero? declared = some zero ∧
        value = default.getD zero ∧ parameter = some (visit.body.freeName node.id name) ∧
        type = some declared := by
  rcases visit.cases_owned faithful held member with
    ⟨place, node, known, found, madeFor⟩ | ⟨_, _, _, _, _, _, _, projected⟩ | ⟨_, kind, typed⟩
  · obtain rfl : node.id = place := (Graph.mem_of_node? found).2
    cases madeFor with
    | constant => exact Or.inl rfl
    | freeParameter isInput unbound numeric =>
        exact Or.inr ⟨node, _, _, _, _, known, found, isInput, unbound, numeric, rfl, rfl, rfl⟩
  · rcases projection?_eq_some projected with ⟨_, kind⟩ | ⟨_, _, kind⟩ <;> cases kind
  · cases kind
    exact Or.inl typed

section Callers

variable {exprs : ExprList} {top visit : Visit} {calls : List Visit}

theorem Shared.exists_caller (shared : Shared exprs top calls) (member : visit ∈ calls) :
    ∃ parent ∈ top :: calls, ∃ id node callee arguments,
      visit.path = parent.path ++ [id] ∧ parent.body.wired.node? id = some node ∧
        node.kind = .call (.resolved callee) ∧
        arguments.map Prod.fst = callee.inputs.map Formal.node ∧
        visit.body = parent.body.called id callee arguments := by
  obtain ⟨parent, among, id, ⟨known, node, callee, found, kind⟩, way⟩ := shared.called visit member
  obtain ⟨value, atValue⟩ := Table.mem_keys_iff.1 known
  obtain ⟨other, foundToo, takes⟩ := (shared.faithful parent among).nodes id value atValue
  cases found.symm.trans foundToo
  unfold Takes at takes
  rw [kind] at takes
  obtain ⟨arguments, _, _, inner, inside, atInputs, innerWay, body, _⟩ := takes
  rw [(Graph.mem_of_node? found).2] at innerWay body
  -- No two visits come by the same way, so the callee's visit is this one.
  have same : inner = visit := List.inj_on_of_nodup_map shared.distinct inside
    (List.mem_cons_of_mem _ member) (innerWay.trans way.symm)
  refine ⟨parent, among, id, node, callee, arguments, way, found, kind, ?_, same ▸ body⟩
  exact map_eq_map_iff_forall₂.2 (atInputs.flip.imp fun _ _ held => held.1)

theorem Shared.coherent (shared : Shared exprs top calls) (coherent : top.body.wired.Coherent)
    (member : visit ∈ top :: calls) : visit.body.wired.Coherent := by
  induction length : visit.path.length generalizing visit with
  | zero =>
      rcases List.mem_cons.1 member with rfl | called
      · exact coherent
      · obtain ⟨parent, _, id, _, _, _, way, _⟩ := shared.exists_caller called
        simp [way] at length
  | succ count induction =>
      rcases List.mem_cons.1 member with rfl | called
      · exact coherent
      · obtain ⟨parent, among, id, node, callee, arguments, way, found, kind, _, body⟩ :=
          shared.exists_caller called
        have shorter : parent.path.length = count := by simpa [way] using length
        have built := (induction among shorter).callees found callee kind
        rw [body]
        exact built.checked.coherent

/-- In a callee every formal input stands for an argument. -/
theorem Shared.exists_argument (shared : Shared exprs top calls)
    (coherent : top.body.wired.Coherent) (member : visit ∈ calls) {id : NodeId}
    {node : MaterialNode} (found : visit.body.wired.node? id = some node)
    (isInput : Callable.isInputPlaceholder node = true) :
    ∃ argument, visit.body.arguments.find? id = some argument := by
  obtain ⟨parent, among, call, caller, callee, arguments, _, atCall, kind, keys, body⟩ :=
    shared.exists_caller member
  rw [body] at found ⊢
  have built := (shared.coherent coherent among).callees atCall callee kind
  obtain ⟨formal, listed, rfl⟩ := built.exists_input found isInput
  apply Table.mem_keys_iff.1
  show formal.node ∈ arguments.map Prod.fst
  rw [keys]
  exact List.mem_map_of_mem listed

end Callers

section Scheduled

variable {wired : WiredMaterial} {order : List NodeId} {types : TypeTable}

theorem mem_order_of_needs (checked : wired.Checked order types) {id producer : NodeId}
    (member : id ∈ order)
    (needs : Relation.ReflTransGen (Body.top wired types).Needs id producer) :
    producer ∈ order := by
  induction needs with
  | refl => exact member
  | @tail middle producer _ last induction =>
      obtain ⟨node, slot, found, _, input, binding, atSlot, bound, rfl⟩ := last
      obtain ⟨other, foundToo, atInput⟩ := Option.bind_eq_some_iff.1 atSlot
      obtain ⟨before, after, split⟩ := List.append_of_mem induction
      have earlier := checked.ordered before middle after split other foundToo input
        (Node.mem_of_input? atInput).1 binding bound
      rw [split]
      exact List.mem_append_left _ earlier

theorem keys_subset_order (checked : wired.Checked order types) {root : NodeId}
    (member : root ∈ order) {results : List Result} {builder : Builder}
    (whole : (do
      (Body.top wired types).build order
      (Body.top wired types).results root) (.ofExprs []) = .ok results builder) :
    builder.nodes.keys ⊆ order := by
  obtain ⟨_, middle, built, ranResults⟩ := exists_of_bind_eq_ok whole
  have arguments : Below (Body.top wired types).arguments ([] : ExprList).length := below_nil
  -- The results of the root look up what is lowered by then.
  have kept : builder.nodes = middle.nodes := by
    obtain ⟨node, found, _⟩ := checked.present root member
    obtain ⟨_, ran, sound, known⟩ :=
      build_run checked (List.append_nil order).symm arguments
    cases built.symm.trans ran
    obtain ⟨_, _, ranToo, _, _, kept, _⟩ := delivers_results checked sound known member found
    cases ranResults.symm.trans ranToo
    exact kept
  obtain ⟨_, _, _, seen, _⟩ :=
    tracks_build order _ _ _ (Tracked.ofExprs [] arguments) built
  intro id known
  rw [kept] at known
  rcases seen id known with early | ⟨listed, scheduled, needs⟩
  · cases early
  · exact mem_order_of_needs checked scheduled needs

end Scheduled

end Lowering

namespace Wired

open Lowering

variable {wired : WiredMaterial} {policy : ErrorPolicy} {root : NodeId} {compiled : CompiledRoot}

theorem freeName_top (wired : WiredMaterial) (types : TypeTable) (id : NodeId)
    (name : Option String) :
    (Body.top wired types).freeName id name = name.getD ("arg_" ++ toString id.toNat) :=
  String.empty_append

theorem exists_constant (ok : wired.compileRoot policy root = .ok compiled) {id : NodeId}
    (member : id ∈ compiled.schedule.order) {node : MaterialNode}
    (found : wired.node? id = some node) {name : Option String} {type : ValueType}
    {default : Option Literal} (kind : node.kind = .functionInput name type default)
    {zero : Literal} (numeric : Literal.zero? type = some zero) :
    ∃ expr ∈ compiled.exprs, expr.kind =
        .constant (default.getD zero) (some (name.getD ("arg_" ++ toString id.toNat))) ∧
      expr.type = some type := by
  obtain ⟨builder, route⟩ := exists_route ok
  obtain ⟨place, _, stands⟩ := route.exists_stands member found (by simp [kind])
  unfold Stands at stands
  rw [kind, (Graph.mem_of_node? found).2] at stands
  have held := (stands rfl zero numeric).extend (extends_of_route ok route)
  rw [freeName_top] at held
  obtain ⟨expr, atPlace, sameKind, sameType⟩ := ExprList.holds_iff.1 held
  exact ⟨expr, List.mem_of_getElem? atPlace, sameKind, sameType⟩

/-- A constant has the type of its literal, unless it was made for a formal input of the root's
graph whose default has another type. -/
theorem fits_or_disagrees (coherent : wired.Coherent)
    (ok : wired.compileRoot policy root = .ok compiled) {expr : Expr}
    (member : expr ∈ compiled.exprs) {value : Literal} {parameter : Option String}
    (kind : expr.kind = .constant value parameter) :
    expr.type = some value.type ∨
      ∃ id ∈ compiled.schedule.order, ∃ name type, wired.Disagrees id name type value ∧
        parameter = some (name.getD ("arg_" ++ toString id.toNat)) ∧ expr.type = some type := by
  obtain ⟨checked, scheduled, _⟩ := compiled_sound coherent ok
  obtain ⟨builder, calls, whole, sameExprs, counting, _⟩ := exists_counting ok
  have shared := sameExprs ▸ counting.tracked.shared
  obtain ⟨place, atPlace⟩ := List.mem_iff_getElem?.1 member
  have held : compiled.exprs.Holds place (.constant value parameter) expr.type :=
    ExprList.holds_iff.2 ⟨expr, atPlace, kind, rfl⟩
  obtain ⟨_, visit, _, among, owned⟩ := shared.exists_owner held.lt_length
  rcases Visit.fits_or_free (shared.faithful visit among) held owned with fits | made
  · exact Or.inl fits
  obtain ⟨node, name, type, default, zero, known, found, isInput, unbound, numeric, rfl, rfl,
    declared⟩ := made
  rcases List.mem_cons.1 among with rfl | called
  · by_cases same : (default.getD zero).type = type
    · exact Or.inl (same ▸ declared)
    refine Or.inr ⟨node.id, keys_subset_order checked scheduled whole known, name, type, ?_,
      congrArg some (freeName_top _ _ _ _), declared⟩
    refine ⟨node, found, ?_, ?_, same⟩
    · cases default with
      | none => exact absurd (Literal.zero?_type numeric) same
      | some value => exact isInput
    · rintro rfl
      cases numeric
  · have isPlaceholder : Callable.isInputPlaceholder node = true := by
      simp [Callable.isInputPlaceholder, isInput]
    obtain ⟨argument, given⟩ := shared.exists_argument coherent called found isPlaceholder
    cases given.symm.trans unbound

/-- The constants that do not fit are those of the formal inputs that disagree with their
defaults. -/
theorem exists_misfit_iff (coherent : wired.Coherent)
    (ok : wired.compileRoot policy root = .ok compiled) {value : Literal}
    {parameter : Option String} {type : Option ValueType} :
    (∃ expr ∈ compiled.exprs, expr.kind = .constant value parameter ∧ expr.type = type ∧
        expr.fits = false) ↔
      ∃ id ∈ compiled.schedule.order, ∃ name declared, wired.Disagrees id name declared value ∧
        parameter = some (name.getD ("arg_" ++ toString id.toNat)) ∧ type = some declared := by
  constructor
  · rintro ⟨expr, member, kind, rfl, misfit⟩
    rcases fits_or_disagrees coherent ok member kind with fits | disagrees
    · simp [Expr.fits, kind, fits] at misfit
    · exact disagrees
  · rintro ⟨id, member, name, declared, ⟨node, found, kind, numeric, different⟩, rfl, rfl⟩
    obtain ⟨zero, isZero⟩ := Literal.exists_zero numeric
    obtain ⟨expr, listed, sameKind, sameType⟩ := exists_constant ok member found kind isZero
    refine ⟨expr, listed, sameKind, sameType, ?_⟩
    simpa [Expr.fits, sameKind, sameType] using Ne.symm different

theorem forall_fits_iff (coherent : wired.Coherent)
    (ok : wired.compileRoot policy root = .ok compiled) :
    (∀ expr ∈ compiled.exprs, expr.fits = true) ↔
      ∀ id ∈ compiled.schedule.order, ∀ name declared value,
        ¬wired.Disagrees id name declared value := by
  constructor
  · intro fit id member name declared value disagrees
    obtain ⟨expr, listed, _, _, misfit⟩ :=
      (exists_misfit_iff coherent ok).2 ⟨id, member, name, declared, disagrees, rfl, rfl⟩
    cases misfit.symm.trans (fit expr listed)
  · intro agree expr listed
    cases fits : expr.fits with
    | true => rfl
    | false =>
        cases kind : expr.kind with
        | constant value parameter =>
            obtain ⟨id, member, name, declared, disagrees, _⟩ :=
              (exists_misfit_iff coherent ok).1 ⟨expr, listed, kind, rfl, fits⟩
            exact absurd disagrees (agree id member name declared value)
        | _ => simp [Expr.fits, kind] at fits

theorem declared_at_type (coherent : wired.Coherent)
    (ok : wired.compileRoot policy root = .ok compiled) {expr : Expr}
    (listed : expr ∈ compiled.exprs) {value : Literal} {name : String}
    (kind : expr.kind = .constant value (some name)) :
    ∃ type, expr.type = some type ∧ compiled.parameters.find? name = some type := by
  obtain ⟨type, typed⟩ : ∃ type, expr.type = some type := by
    rcases fits_or_disagrees coherent ok listed kind with fits | ⟨_, _, _, type, _, _, declared⟩
    · exact ⟨_, fits⟩
    · exact ⟨type, declared⟩
  refine ⟨type, typed, ((declares_of_compileRoot ok).1 name type).2 ⟨expr, listed, ?_⟩⟩
  simp [Expr.parameter?, kind, typed]

/-- Where a root compiles, with calls nested to any depth, a constant whose literal has another type
than the constant is one that was made for a scheduled formal input of the root's own graph whose
default disagrees with its type, and each of these makes one. All other constants have the types of
their literals, and every named one has the type at which its parameter is declared. -/
theorem compileRoot_constants_fit {graph : Material} (built : graph.Built) {links : LinkPolicy}
    {wired : WiredMaterial} (wire : graph.wire links = .ok wired) {policy : ErrorPolicy}
    {root : NodeId} {compiled : CompiledRoot}
    (ok : wired.compileRoot policy root = .ok compiled) :
    (∀ value parameter type,
      (∃ expr ∈ compiled.exprs, expr.kind = .constant value parameter ∧ expr.type = type ∧
        expr.fits = false) ↔
      ∃ id ∈ compiled.schedule.order, ∃ name declared, wired.Disagrees id name declared value ∧
        parameter = some (name.getD ("arg_" ++ toString id.toNat)) ∧ type = some declared) ∧
    ((∀ expr ∈ compiled.exprs, expr.fits = true) ↔
      ∀ id ∈ compiled.schedule.order, ∀ name declared value,
        ¬wired.Disagrees id name declared value) ∧
    ∀ expr ∈ compiled.exprs, ∀ value name, expr.kind = .constant value (some name) →
      ∃ type, expr.type = some type ∧ compiled.parameters.find? name = some type := by
  have coherent := coherent_of_wire built wire
  refine ⟨?_, forall_fits_iff coherent ok, ?_⟩
  · intro value parameter type
    exact exists_misfit_iff coherent ok
  · intro expr listed value name kind
    exact declared_at_type coherent ok listed kind

/-- In a graph that calls another one and has no formal inputs, all constants fit. -/
theorem compileRoot_constants_fit_caller :
    ∃ digest compiled, (Sample.callerWired digest).compileRoot .collectAll 12 = .ok compiled ∧
      ∀ expr ∈ compiled.exprs, expr.fits = true := by
  obtain ⟨compiled, ok⟩ := Sample.caller_compiles
  obtain ⟨_, fit, _⟩ := compileRoot_constants_fit (Sample.caller_built Sample.callee_built)
    (Sample.caller_wire Sample.calleeDigest) ok
  refine ⟨_, compiled, ok, fit.2 ?_⟩
  rintro id _ name declared value ⟨node, found, kind, _⟩
  have kinds : (Sample.callerWired Sample.calleeDigest).graph.nodes.map Node.kind =
      [.constant (.scalar .one) (some "gain"),
        .call (.resolved (Sample.callee Sample.calleeDigest)), .output .unlit] := rfl
  have listed := List.mem_map_of_mem (f := Node.kind) (Graph.mem_of_node? found).1
  rw [kinds, kind] at listed
  simp at listed

end Wired

namespace Sample

def ascent : Literal := .vec3 .one ⟨0x40000000⟩ ⟨0x40400000⟩

/-- A formal input that declares a scalar and has a vector for its default. -/
def tint : Material :=
  (Graph.empty "Tint").insert
    (.ofKind 1 (.functionInput (some "tint") .scalar (some ascent)))

def tintWired : WiredMaterial :=
  match tint.wire .strict with
  | .ok wired => wired
  | .error _ => .bare tint

end Sample

namespace Wired

/-- The default of a scalar uniform may be a vector. -/
theorem compileRoot_constant_misfits :
    ∃ wired compiled, Sample.tint.Built ∧ Sample.tint.wire .strict = .ok wired ∧
      wired.compileRoot .collectAll 1 = .ok compiled ∧
      compiled.exprs.map Expr.kind = [.constant Sample.ascent (some "tint")] ∧
      compiled.exprs.map Expr.type = [some .scalar] ∧
      compiled.parameters = [("tint", .scalar)] ∧
      ¬∀ expr ∈ compiled.exprs, expr.fits = true := by
  refine ⟨Sample.tintWired, ⟨1, ⟨[[1]], [1]⟩, [((1, 0), .scalar)],
    [⟨.constant Sample.ascent (some "tint"), some .scalar, 1⟩], [("tint", .scalar)],
    [⟨"tint", 0⟩]⟩, ?_, rfl, ?_, rfl, rfl, rfl, ?_⟩
  · refine Graph.Built.insert (Graph.Built.empty _) (.new _ _) ?_
    intro inner isCall
    cases isCall
  · rw [compileRoot_eq_ok_iff]
    exact ⟨rfl, rfl, by decide +kernel, rfl, rfl, by decide +kernel, rfl⟩
  · decide

end Wired

end MaterialGraph
