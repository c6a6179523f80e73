import MaterialGraph.Proofs.Wgsl.Run
import MaterialGraph.Proofs.Wgsl.WellTyped
import Mathlib.Logic.Relation

/-!
What emission declares. The uniforms and textures of a module are those of the expressions that were
looked at, each once, in the order in which they were first met. An expression that has a local is
not looked at again, but everything below it was declared when the local was bound. In the text of
the declarations the uniform block, the textures and the samplers are numbered one after another.
-/

set_option autoImplicit false

namespace MaterialGraph

def Expr.texture? (expr : Expr) : Option String :=
  match expr.kind with
  | .texture name => some name
  | _ => none

theorem Expr.texture?_eq_some_iff {expr : Expr} {name : String} :
    expr.texture? = some name ↔ expr.kind = .texture name := by
  obtain ⟨kind, type, useCount⟩ := expr
  cases kind <;> simp [Expr.texture?]

namespace Wgsl

/-- The expressions that belong to the value of an expression, operands first, each as often as it
is used. -/
def trace (exprs : ExprList) (id : ExprId) : List Expr :=
  match exprs[id]? with
  | none => []
  | some expr =>
      (demanded exprs expr).flatMap (fun operand =>
        if operand < id then trace exprs operand else []) ++ [expr]
termination_by id

theorem trace_of_none {exprs : ExprList} {id : ExprId} (absent : exprs[id]? = none) :
    trace exprs id = [] := by
  rw [trace, absent]

theorem trace_of_some {exprs : ExprList} {id : ExprId} {expr : Expr}
    (found : exprs[id]? = some expr) :
    trace exprs id = (demanded exprs expr).flatMap (fun operand =>
      if operand < id then trace exprs operand else []) ++ [expr] := by
  rw [trace, found]

/-- What is in scope for the code of an expression includes what all these expressions read. -/
theorem Ready.declares_trace {settings : TargetSettings} {exprs : ExprList} {scope : Scope}
    {id : ExprId} (ready : Ready settings exprs scope id) :
    ∀ expr ∈ trace exprs id, scope.Declares expr := by
  induction ready with
  | missing absent =>
      rw [trace_of_none absent]
      exact fun _ member => absurd member List.not_mem_nil
  | present found bound declared operands induction =>
      rw [trace_of_some found]
      intro expr member
      rcases List.mem_append.1 member with inside | here
      · obtain ⟨operand, demands, looked⟩ := List.mem_flatMap.1 inside
        split at looked
        · rename_i below
          exact induction operand demands below expr looked
        · cases looked
      · cases List.mem_singleton.1 here
        exact declared

/-- A module declares what was met, each uniform and each texture once, in order, and no uniform
at two types. -/
structure Recorded (history : List Expr) (module : Module) : Prop where
  distinct : module.uniforms.keys.Nodup
  uniforms : module.uniforms = (history.filterMap Expr.parameter?).eraseDups
  textures : module.textures = (history.filterMap Expr.texture?).eraseDups

namespace Recorded

variable {history : List Expr} {module : Module}

theorem empty : Recorded [] Module.empty := ⟨List.nodup_nil, rfl, rfl⟩

theorem of_eq (recorded : Recorded history module) {next : Module}
    (uniforms : next.uniforms = module.uniforms) (textures : next.textures = module.textures) :
    Recorded history next :=
  ⟨uniforms ▸ recorded.distinct, uniforms.trans recorded.uniforms,
    textures.trans recorded.textures⟩

theorem append (recorded : Recorded history module) {more : List Expr}
    (declared : ∀ expr ∈ more, module.scope.Declares expr) :
    Recorded (history ++ more) module := by
  refine ⟨recorded.distinct, ?_, ?_⟩
  · rw [List.filterMap_append, eraseDups_append_of_subset]
    · exact recorded.uniforms
    · rintro ⟨name, type⟩ member
      obtain ⟨expr, listed, named⟩ := List.mem_filterMap.1 member
      have known := Table.mem_of_find? ((declared expr listed).uniform name type named)
      change (name, type) ∈ module.uniforms at known
      rw [recorded.uniforms] at known
      exact List.mem_eraseDups.1 known
  · rw [List.filterMap_append, eraseDups_append_of_subset]
    · exact recorded.textures
    · intro name member
      obtain ⟨expr, listed, named⟩ := List.mem_filterMap.1 member
      have known := (declared expr listed).texture name (Expr.texture?_eq_some_iff.1 named)
      change name ∈ module.textures at known
      rw [recorded.textures] at known
      exact List.mem_eraseDups.1 known

theorem look (recorded : Recorded history module) {expr : Expr}
    (declared : module.scope.Declares expr) : Recorded (history ++ [expr]) module := by
  apply recorded.append
  intro other member
  rw [List.mem_singleton.1 member]
  exact declared

theorem declareUniform (recorded : Recorded history module) {expr : Expr} {name : String}
    {type : ValueType} (named : expr.parameter? = some (name, type)) {next : Module}
    (ran : Wgsl.declareUniform name type module = .ok () next) :
    Recorded (history ++ [expr]) next := by
  have plain : expr.texture? = none := by
    unfold Expr.parameter? at named
    split at named
    · rename_i kind
      simp [Expr.texture?, kind]
    · cases named
  have uniforms : (history ++ [expr]).filterMap Expr.parameter? =
      history.filterMap Expr.parameter? ++ [(name, type)] := by
    simp [named]
  have textures : (history ++ [expr]).filterMap Expr.texture? =
      history.filterMap Expr.texture? := by
    simp [plain]
  unfold Wgsl.declareUniform Parameters.declare at ran
  cases found : module.uniforms.find? name with
  | some first =>
      rw [found] at ran
      simp only at ran
      by_cases same : first = type
      · rw [if_pos same] at ran
        cases ran
        refine recorded.look ⟨?_, ?_⟩
        · intro other otherType namedToo
          cases named.symm.trans namedToo
          exact same ▸ found
        · intro texture isTexture
          rw [Expr.texture?_eq_some_iff.2 isTexture] at plain
          cases plain
      · rw [if_neg same] at ran
        cases ran
  | none =>
      rw [found] at ran
      cases ran
      have absent : (name, type) ∉ history.filterMap Expr.parameter? := by
        intro member
        rw [← List.mem_eraseDups, ← recorded.uniforms] at member
        exact Table.find?_eq_none_iff.1 found (List.mem_map_of_mem member)
      refine ⟨?_, ?_, ?_⟩
      · rw [Module.addUniform, Table.keys, List.map_append, List.map_singleton,
          List.nodup_append_comm, List.singleton_append, List.nodup_cons]
        exact ⟨Table.find?_eq_none_iff.1 found, recorded.distinct⟩
      · rw [uniforms, eraseDups_snoc_of_notMem absent, Module.addUniform, recorded.uniforms]
      · rw [textures, Module.addUniform, recorded.textures]

theorem declareTexture (recorded : Recorded history module) {expr : Expr} {name : String}
    (isTexture : expr.kind = .texture name) {next : Module}
    (ran : Wgsl.declareTexture name module = .ok () next) :
    Recorded (history ++ [expr]) next := by
  have uniforms : (history ++ [expr]).filterMap Expr.parameter? =
      history.filterMap Expr.parameter? := by
    simp [Expr.parameter?, isTexture]
  have textures : (history ++ [expr]).filterMap Expr.texture? =
      history.filterMap Expr.texture? ++ [name] := by
    simp [Expr.texture?, isTexture]
  change EStateM.Result.ok ()
    (if module.textures.contains name then module else module.addTexture name) = _ at ran
  cases ran
  by_cases known : name ∈ module.textures
  · rw [if_pos (List.contains_iff_mem.2 known)]
    refine recorded.look ⟨?_, ?_⟩
    · intro other type named
      rw [Expr.parameter?, isTexture] at named
      cases named
    · intro other isTextureToo
      cases isTexture.symm.trans isTextureToo
      exact known
  · rw [if_neg (by simpa using known)]
    rw [recorded.textures, List.mem_eraseDups] at known
    refine ⟨recorded.distinct, ?_, ?_⟩
    · rw [uniforms, Module.addTexture, recorded.uniforms]
    · rw [textures, eraseDups_snoc_of_notMem known, Module.addTexture, recorded.textures]

end Recorded

variable {settings : TargetSettings} {exprs : ExprList} {table : Parameters} {module : Module}
  {history : List Expr}

def Meets {Value : Type} (settings : TargetSettings) (exprs : ExprList) (table : Parameters)
    (steps : Emit Value) (met : List Expr) : Prop :=
  ∀ history module value next, Sound settings exprs table module → Recorded history module →
    steps module = .ok value next →
    Sound settings exprs table next ∧ Recorded (history ++ met) next

namespace Meets

variable {Value Other Item : Type}

theorem pure (value : Value) : Meets settings exprs table (Pure.pure value : Emit Value) [] := by
  intro history module other next sound recorded ran
  cases ran
  rw [List.append_nil]
  exact ⟨sound, recorded⟩

theorem bind {steps : Emit Value} {rest : Value → Emit Other} {met later : List Expr}
    (first : Meets settings exprs table steps met)
    (second : ∀ value, Meets settings exprs table (rest value) later) :
    Meets settings exprs table (steps >>= rest) (met ++ later) := by
  intro history module value next sound recorded ran
  obtain ⟨middle, between, ranFirst, ranRest⟩ := exists_of_bind_eq_ok ran
  obtain ⟨soundBetween, recordedBetween⟩ := first _ _ _ _ sound recorded ranFirst
  rw [← List.append_assoc]
  exact second middle _ _ _ _ soundBetween recordedBetween ranRest

theorem andPure {steps : Emit Value} {met : List Expr}
    (first : Meets settings exprs table steps met) (change : Value → Other) :
    Meets settings exprs table (steps >>= fun value => Pure.pure (change value)) met := by
  have both := first.bind fun value => pure (change value)
  rwa [List.append_nil] at both

theorem look {steps : Emit Value} {met : List Expr} (first : Meets settings exprs table steps met)
    {expr : Expr} (unnamed : expr.parameter? = none)
    (noTexture : ∀ name, expr.kind ≠ .texture name) :
    Meets settings exprs table steps (met ++ [expr]) := by
  intro history module value next sound recorded ran
  obtain ⟨soundNext, recordedNext⟩ := first _ _ _ _ sound recorded ran
  rw [← List.append_assoc]
  exact ⟨soundNext, recordedNext.look (Scope.declares_of_unnamed unnamed noTexture)⟩

theorem mapM {steps : Item → Emit Value} {met : Item → List Expr} {items : List Item}
    (each : ∀ item ∈ items, Meets settings exprs table (steps item) (met item)) :
    Meets settings exprs table (items.mapM steps) (items.flatMap met) := by
  induction items with
  | nil => exact pure []
  | cons item rest induction =>
      rw [List.forall_mem_cons] at each
      rw [List.mapM_cons, List.flatMap_cons]
      exact each.1.bind fun value => (induction each.2).andPure (value :: ·)

end Meets

theorem share_eq_ok {id : ExprId} {expr : Expr} {code value : Code} {next : Module}
    (ran : share settings id expr code module = .ok value next) :
    next.uniforms = module.uniforms ∧ next.textures = module.textures := by
  cases typed : expr.type with
  | none =>
      simp only [share, typed] at ran
      cases ran
      exact ⟨rfl, rfl⟩
  | some type =>
      simp only [share, typed] at ran
      split at ran
      · cases ran
        exact ⟨rfl, rfl⟩
      · cases ran
        exact ⟨rfl, rfl⟩

theorem meets_declareUniform {expr : Expr} {name : String} {type : ValueType}
    (named : expr.parameter? = some (name, type)) (agrees : table.find? name = some type) :
    Meets settings exprs table (declareUniform name type) [expr] := by
  intro history module value next sound recorded ran
  obtain ⟨last, ranToo, soundLast, _⟩ := emits_declareUniform sound agrees fun _ => False
  cases ranToo.symm.trans ran
  exact ⟨soundLast, recorded.declareUniform named ran⟩

theorem meets_declareTexture {expr : Expr} {name : String} (isTexture : expr.kind = .texture name) :
    Meets settings exprs table (declareTexture name) [expr] := by
  intro history module value next sound recorded ran
  obtain ⟨last, ranToo, soundLast, _⟩ := emits_declareTexture sound name fun _ => False
  cases ranToo.symm.trans ran
  exact ⟨soundLast, recorded.declareTexture isTexture ran⟩

theorem meets_emitKind {expr : Expr}
    (agrees : ∀ name type, expr.parameter? = some (name, type) → table.find? name = some type)
    {operand : ExprId → Emit Code} {met : ExprId → List Expr}
    (each : ∀ other, Meets settings exprs table (operand other) (met other)) :
    Meets settings exprs table (emitKind settings exprs operand expr)
      ((demanded exprs expr).flatMap met ++ [expr]) := by
  obtain ⟨kind, type, useCount⟩ := expr
  cases kind with
  | constant value parameter =>
      cases parameter with
      | none => exact (Meets.pure _).look rfl (by simp)
      | some name => exact (meets_declareUniform rfl (agrees name _ rfl)).bind fun _ => .pure _
  | texture name => exact (meets_declareTexture rfl).bind fun _ => .pure _
  | sample image coordinate level =>
      refine Meets.look ?_ rfl (by simp)
      cases level with
      | none => exact (each image).bind fun _ => (each coordinate).bind fun _ => .pure _
      | some level =>
          exact (each image).bind fun _ => (each coordinate).bind fun _ =>
            (each level).bind fun _ => .pure _
  | swizzle source components =>
      refine Meets.look ?_ rfl (by simp)
      exact (each source).bind fun _ => .pure _
  | math op operands =>
      refine Meets.look ?_ rfl (by simp)
      exact (Meets.mapM fun other _ => (each other).andPure _).andPure _
  | call function outputs =>
      refine Meets.look ?_ rfl (by simp)
      exact (Meets.mapM fun other _ => each other).andPure _
  | result aggregate index =>
      refine Meets.look ?_ rfl (by simp)
      have passes : ∀ other, Meets settings exprs table (operand other) ([other].flatMap met) := by
        intro other
        rw [List.flatMap_singleton]
        exact each other
      cases found : exprs[aggregate]? with
      | none =>
          simp only [emitKind, demanded, found]
          exact passes aggregate
      | some called =>
          obtain ⟨calledKind, calledType, calledCount⟩ := called
          cases calledKind with
          | call function outputs =>
              simp only [emitKind, demanded, found]
              cases outputs[index]? with
              | none => exact .pure _
              | some output => exact passes output
          | _ =>
              simp only [emitKind, demanded, found]
              exact passes aggregate

/-- Emitting an expression looks at all that belongs to its value, or it was looked at before. -/
theorem meets_emit (serves : table.Serves exprs) (id : ExprId) :
    Meets settings exprs table (emit settings exprs id) (trace exprs id) := by
  induction id using Nat.strongRecOn with
  | _ id induction =>
      intro history module code next sound recorded ran
      obtain ⟨last, ranToo, soundLast, _, _, ready⟩ := emits_emit serves sound id
      obtain ⟨_, rfl⟩ : codeOf settings exprs id = code ∧ last = next := by
        cases ranToo.symm.trans ran
        exact ⟨rfl, rfl⟩
      refine ⟨soundLast, ?_⟩
      rw [emit] at ran
      obtain ⟨_, _, got, ran⟩ := exists_of_bind_eq_ok ran
      cases got
      cases known : module.locals.find? id with
      | some name =>
          -- The module is as it was, and all that the local stands for is in scope.
          rw [known] at ran
          cases ran
          exact recorded.append ready.declares_trace
      | none =>
          rw [known] at ran
          cases found : exprs[id]? with
          | none =>
              rw [found] at ran
              cases ran
              rw [trace_of_none found, List.append_nil]
              exact recorded
          | some expr =>
              rw [found] at ran
              obtain ⟨value, middle, emitted, shared⟩ := exists_of_bind_eq_ok ran
              have operands : ∀ other, Meets settings exprs table
                  (if other < id then emit settings exprs other else pure .nothing)
                  (if other < id then trace exprs other else []) := by
                intro other
                split
                · rename_i below
                  exact induction other below
                · exact .pure _
              obtain ⟨_, recordedMiddle⟩ := meets_emitKind
                (serves expr (List.mem_of_getElem? found)) operands _ _ _ _ sound recorded emitted
              obtain ⟨uniforms, textures⟩ := share_eq_ok shared
              rw [trace_of_some found]
              exact recordedMiddle.of_eq uniforms textures

/-- What a module binds: the block of its uniforms, and each texture with its sampler. -/
inductive Resource where
  | uniforms
  | texture (name : String)
  | sampler (name : String)
deriving DecidableEq

def Resource.text (settings : TargetSettings) : Resource → String
  | uniforms => "var<uniform> " ++ settings.uniformBinding ++ ": " ++ settings.uniformStruct ++ ";"
  | texture name => "var " ++ name ++ ": texture_2d<f32>;"
  | sampler name => "var " ++ samplerName name ++ ": sampler;"

namespace Module

def pair (name : String) : List Resource := [.texture name, .sampler name]

def resources (uniforms : Parameters) (textures : List String) : List Resource :=
  (if uniforms.isEmpty then [] else [.uniforms]) ++ textures.flatMap pair

def uniformRecord (settings : TargetSettings) (uniforms : Parameters) : String :=
  if uniforms.isEmpty then ""
  else
    line ("struct " ++ settings.uniformStruct ++ " \x7b") ++
    String.join (uniforms.map fun (name, type) =>
      line ("    " ++ name ++ ": " ++ typeName type ++ ",")) ++
    line "\x7d\n"

def boundAt (settings : TargetSettings) (entry : Resource × Nat) : String :=
  line ("@group(" ++ toString settings.bindGroup.toNat ++ ") @binding(" ++ toString entry.2 ++
    ") " ++ entry.1.text settings)

theorem textureBinding_eq (settings : TargetSettings) (binding : Nat) (name : String) :
    textureBinding settings binding name =
      String.join (((pair name).zipIdx binding).map (boundAt settings)) := by
  have mark : ") var " = ") " ++ "var " := rfl
  simp only [pair, List.zipIdx_cons, List.zipIdx_nil, List.map_cons, List.map_nil,
    String.join_cons, String.join_nil, String.append_empty]
  unfold boundAt Resource.text
  simp only [textureBinding, mark, String.append_assoc]

theorem textureBindings_eq (settings : TargetSettings) (binding : Nat) (textures : List String) :
    textureBindings settings binding textures =
      String.join (((textures.flatMap pair).zipIdx binding).map (boundAt settings)) := by
  induction textures generalizing binding with
  | nil => rfl
  | cons name rest induction =>
      rw [textureBindings, textureBinding_eq, induction, List.flatMap_cons, List.zipIdx_append,
        List.map_append, String.join_append]
      rfl

/-- The declarations are the record of the uniforms and then the resources, each with its place
among them as its binding. -/
theorem declarations_eq (settings : TargetSettings) (uniforms : Parameters)
    (textures : List String) :
    declarations settings uniforms textures =
      uniformRecord settings uniforms ++
        String.join ((resources uniforms textures).zipIdx.map (boundAt settings)) := by
  unfold declarations uniformBlock uniformRecord resources
  rw [textureBindings_eq]
  cases uniforms with
  | nil => simp
  | cons first rest =>
      have mark : ") @binding(0) var<uniform> " = ") @binding(" ++ "0" ++ ") " ++ "var<uniform> " :=
        rfl
      simp only [List.isEmpty_cons, Bool.false_eq_true, if_false, List.singleton_append,
        List.zipIdx_cons, List.map_cons, String.join_cons]
      unfold boundAt Resource.text
      simp only [mark, String.append_assoc]
      rfl

end Module

end Wgsl

end MaterialGraph
