import MaterialGraph.Proofs.Wgsl.Sharing

/-!
Runs of emission. While the uniforms that were declared agree with a table, and the locals stand in
the order in which they were bound, an expression whose parameters agree with the table is emitted
without failure, and everything that its code refers to is in scope afterwards.
-/

set_option autoImplicit false

namespace MaterialGraph.Wgsl

def Module.scope (module : Module) : Scope :=
  ⟨module.uniforms, module.textures, module.statements⟩

structure Sound (settings : TargetSettings) (exprs : ExprList) (table : Parameters)
    (module : Module) : Prop where
  declared : module.uniforms.Within table
  lets : ∃ ids, module.locals = ids.map (fun id => (id, localName id)) ∧
    Lets settings exprs module.uniforms module.textures ids module.statements

/-- Steps that succeed with a value, and bind no local for some of the expressions. -/
def Emits {Value : Type} (settings : TargetSettings) (exprs : ExprList) (table : Parameters)
    (spared : ExprId → Prop) (module : Module) (steps : Emit Value) (value : Value)
    (post : Scope → Prop) : Prop :=
  ∃ next, steps module = .ok value next ∧ Sound settings exprs table next ∧
    module.scope.Extends next.scope ∧
    (∀ id, spared id → next.locals.find? id = module.locals.find? id) ∧ post next.scope

namespace Emits

variable {settings : TargetSettings} {exprs : ExprList} {table : Parameters}
  {spared : ExprId → Prop} {module : Module} {Value Other : Type}

theorem pure (sound : Sound settings exprs table module) {value : Value} {post : Scope → Prop}
    (holds : post module.scope) :
    Emits settings exprs table spared module (Pure.pure value) value post :=
  ⟨module, rfl, sound, .refl _, fun _ _ => rfl, holds⟩

theorem bind {steps : Emit Value} {rest : Value → Emit Other} {value : Value} {result : Other}
    {middle post : Scope → Prop}
    (first : Emits settings exprs table spared module steps value middle)
    (second : ∀ next, Sound settings exprs table next → module.scope.Extends next.scope →
      middle next.scope → Emits settings exprs table spared next (rest value) result post) :
    Emits settings exprs table spared module (steps >>= rest) result post := by
  obtain ⟨next, ran, sound, grown, kept, holds⟩ := first
  obtain ⟨last, ranRest, soundLast, grownLast, keptLast, holdsLast⟩ := second next sound grown holds
  refine ⟨last, ?_, soundLast, grown.trans grownLast, ?_, holdsLast⟩
  · rw [bind_of_ok ran]
    exact ranRest
  · intro id among
    rw [keptLast id among, kept id among]

theorem get_bind {rest : Module → Emit Other} {result : Other} {post : Scope → Prop}
    (second : Emits settings exprs table spared module (rest module) result post) :
    Emits settings exprs table spared module (get >>= rest) result post := second

theorem imp {steps : Emit Value} {value : Value} {post weaker : Scope → Prop}
    {fewer : ExprId → Prop} (emits : Emits settings exprs table spared module steps value post)
    (le : ∀ id, fewer id → spared id) (holds : ∀ scope, post scope → weaker scope) :
    Emits settings exprs table fewer module steps value weaker := by
  obtain ⟨next, ran, sound, grown, kept, held⟩ := emits
  exact ⟨next, ran, sound, grown, fun id among => kept id (le id among), holds _ held⟩

theorem mapM {Item : Type} {steps : Item → Emit Value} {values : Item → Value}
    {post : Item → Scope → Prop} {items : List Item}
    (stable : ∀ item old new, Scope.Extends old new → post item old → post item new)
    (each : ∀ item ∈ items, ∀ next, Sound settings exprs table next →
      Emits settings exprs table spared next (steps item) (values item) (post item))
    (sound : Sound settings exprs table module) :
    Emits settings exprs table spared module (items.mapM steps) (items.map values)
      (fun scope => ∀ item ∈ items, post item scope) := by
  induction items generalizing module with
  | nil => exact pure sound fun item member => absurd member List.not_mem_nil
  | cons item rest induction =>
      rw [List.mapM_cons]
      apply bind (each item List.mem_cons_self module sound)
      intro next soundNext _ held
      have later := induction (fun other member => each other (List.mem_cons_of_mem _ member))
        soundNext
      apply bind later
      intro last soundLast grown holds
      apply pure soundLast
      exact List.forall_mem_cons.2 ⟨stable item _ _ grown held, holds⟩

end Emits

variable {settings : TargetSettings} {exprs : ExprList} {table : Parameters} {module : Module}

theorem emits_declareUniform (sound : Sound settings exprs table module) {name : String}
    {type : ValueType} (agrees : table.find? name = some type) (spared : ExprId → Prop) :
    Emits settings exprs table spared module (declareUniform name type) ()
      (fun scope => scope.uniforms.find? name = some type) := by
  obtain ⟨ids, locals, lets⟩ := sound.lets
  unfold declareUniform
  cases found : module.uniforms.find? name with
  | some first =>
      have same : first = type :=
        Option.some.inj ((sound.declared name first found).symm.trans agrees)
      subst same
      refine ⟨module, ?_, sound, .refl _, fun _ _ => rfl, found⟩
      simp [Parameters.declare, found]
  | none =>
      have keeps : module.uniforms.Within (module.addUniform name type).uniforms := by
        intro other otherType known
        rw [Module.addUniform, Table.find?_append, known, Option.some_or]
      refine ⟨module.addUniform name type, ?_, ⟨?_, ids, locals, ?_⟩, ?_, fun _ _ => rfl, ?_⟩
      · simp [Parameters.declare, found]
      · intro other otherType known
        rw [Module.addUniform, Table.find?_append, Option.or_eq_some_iff] at known
        rcases known with old | ⟨_, new⟩
        · exact sound.declared other otherType old
        · rw [Table.find?] at new
          split at new
          · rename_i same
            cases new
            exact same ▸ agrees
          · cases new
      · exact lets.declare keeps (List.Subset.refl _)
      · exact ⟨keeps, List.Subset.refl _, List.prefix_rfl⟩
      · simp [Module.scope, Module.addUniform, Table.find?_append, found, Table.find?]

theorem emits_declareTexture (sound : Sound settings exprs table module) (name : String)
    (spared : ExprId → Prop) :
    Emits settings exprs table spared module (declareTexture name) ()
      (fun scope => name ∈ scope.textures) := by
  obtain ⟨ids, locals, lets⟩ := sound.lets
  by_cases known : name ∈ module.textures
  · refine ⟨module, ?_, sound, .refl _, fun _ _ => rfl, known⟩
    change EStateM.Result.ok () _ = _
    simp [known]
  · refine ⟨module.addTexture name, ?_, ⟨sound.declared, ids, locals, ?_⟩, ?_, fun _ _ => rfl, ?_⟩
    · change EStateM.Result.ok () _ = _
      simp [known]
    · exact lets.declare (.refl _) (List.subset_append_left _ _)
    · exact ⟨.refl _, List.subset_append_left _ _, List.prefix_rfl⟩
    · simp [Module.scope, Module.addTexture]

theorem Scope.declares_of_unnamed {scope : Scope} {expr : Expr}
    (unnamed : expr.parameter? = none) (noTexture : ∀ name, expr.kind ≠ .texture name) :
    scope.Declares expr := by
  refine ⟨?_, fun name isTexture => absurd isTexture (noTexture name)⟩
  intro name type named
  rw [unnamed] at named
  cases named

theorem readyBelow_extend {id : ExprId} (other : ExprId) {old new : Scope} (grown : old.Extends new)
    (ready : other < id → Ready settings exprs old other) (below : other < id) :
    Ready settings exprs new other := (ready below).extend grown

def EmitsBelow (settings : TargetSettings) (exprs : ExprList) (table : Parameters) (id : ExprId)
    (operand : ExprId → Emit Code) (codes : ExprId → Code) : Prop :=
  ∀ other next, Sound settings exprs table next →
    Emits settings exprs table (id ≤ ·) next (operand other) (codes other)
      (fun scope => other < id → Ready settings exprs scope other)

def EmitsKind (settings : TargetSettings) (exprs : ExprList) (table : Parameters) (module : Module)
    (id : ExprId) (operand : ExprId → Emit Code) (codes : ExprId → Code) (expr : Expr) : Prop :=
  Emits settings exprs table (id ≤ ·) module (emitKind settings exprs operand expr)
    (kindCode settings exprs codes expr) (fun scope => Prepared settings exprs scope id expr)

section Kinds

variable {id : ExprId} {operand : ExprId → Emit Code} {codes : ExprId → Code}
  {type : Option ValueType} {uses : UInt32}

theorem emitsKind_constant (sound : Sound settings exprs table module) (value : Literal)
    (parameter : Option String)
    (agrees : ∀ name, parameter = some name → table.find? name = some (type.getD value.type)) :
    EmitsKind settings exprs table module id operand codes
      ⟨.constant value parameter, type, uses⟩ := by
  cases parameter with
  | none =>
      apply Emits.pure sound
      exact ⟨Scope.declares_of_unnamed rfl (by simp),
        fun _ member => absurd member List.not_mem_nil⟩
  | some name =>
      apply Emits.bind (emits_declareUniform sound (agrees name rfl) _)
      intro next soundNext _ declared
      apply Emits.pure soundNext
      refine ⟨⟨?_, by simp⟩, fun _ member => absurd member List.not_mem_nil⟩
      intro other found named
      cases named
      exact declared

theorem emitsKind_texture (sound : Sound settings exprs table module) (name : String) :
    EmitsKind settings exprs table module id operand codes ⟨.texture name, type, uses⟩ := by
  apply Emits.bind (emits_declareTexture sound name _)
  intro next soundNext _ declared
  apply Emits.pure soundNext
  refine ⟨⟨by simp [Expr.parameter?], ?_⟩, fun _ member => absurd member List.not_mem_nil⟩
  intro other isTexture
  cases isTexture
  exact declared

theorem emitsKind_sample (sound : Sound settings exprs table module)
    (each : EmitsBelow settings exprs table id operand codes) (image coordinate : ExprId)
    (level : Option ExprId) :
    EmitsKind settings exprs table module id operand codes
      ⟨.sample image coordinate level, type, uses⟩ := by
  apply Emits.bind (each image module sound)
  intro next soundNext _ readyImage
  apply Emits.bind (each coordinate next soundNext)
  intro last soundLast grown readyCoordinate
  have readyImage := readyBelow_extend image grown readyImage
  cases level with
  | none =>
      apply Emits.pure soundLast
      refine ⟨Scope.declares_of_unnamed rfl (by simp), ?_⟩
      simpa [demanded, ExprKind.operands] using ⟨readyImage, readyCoordinate⟩
  | some level =>
      apply Emits.bind (each level last soundLast)
      intro final soundFinal grownFinal readyLevel
      apply Emits.pure soundFinal
      refine ⟨Scope.declares_of_unnamed rfl (by simp), ?_⟩
      have readyImage := readyBelow_extend image grownFinal readyImage
      have readyCoordinate := readyBelow_extend coordinate grownFinal readyCoordinate
      simpa [demanded, ExprKind.operands] using ⟨readyImage, readyCoordinate, readyLevel⟩

theorem emitsKind_swizzle (sound : Sound settings exprs table module)
    (each : EmitsBelow settings exprs table id operand codes) (source : ExprId)
    (components : List Component) :
    EmitsKind settings exprs table module id operand codes
      ⟨.swizzle source components, type, uses⟩ := by
  apply Emits.bind (each source module sound)
  intro next soundNext _ ready
  apply Emits.pure soundNext
  refine ⟨Scope.declares_of_unnamed rfl (by simp), ?_⟩
  simpa [demanded, ExprKind.operands] using ready

theorem emitsKind_math (sound : Sound settings exprs table module)
    (each : EmitsBelow settings exprs table id operand codes) (op : MathOp)
    (operands : List ExprId) :
    EmitsKind settings exprs table module id operand codes ⟨.math op operands, type, uses⟩ := by
  have lowered : ∀ other ∈ operands, ∀ next, Sound settings exprs table next →
      Emits settings exprs table (id ≤ ·) next
        (do
          let code ← operand other
          pure (code, operandType exprs .scalar other))
        (codes other, operandType exprs .scalar other)
        (fun scope => other < id → Ready settings exprs scope other) := by
    intro other _ next soundNext
    apply Emits.bind (each other next soundNext)
    intro last soundLast _ ready
    exact Emits.pure soundLast ready
  apply Emits.bind (Emits.mapM (fun other _ _ => readyBelow_extend other) lowered sound)
  intro next soundNext _ ready
  apply Emits.pure soundNext
  exact ⟨Scope.declares_of_unnamed rfl (by simp), ready⟩

theorem emitsKind_call (sound : Sound settings exprs table module)
    (each : EmitsBelow settings exprs table id operand codes) (function : String)
    (outputs : List ExprId) :
    EmitsKind settings exprs table module id operand codes
      ⟨.call function outputs, type, uses⟩ := by
  apply Emits.bind (Emits.mapM (fun other _ _ => readyBelow_extend other)
    (fun other _ => each other) sound)
  intro next soundNext _ ready
  apply Emits.pure soundNext
  exact ⟨Scope.declares_of_unnamed rfl (by simp), ready⟩

/-- A result is the output of its call, or else what it is said to be a result of. -/
theorem emitsKind_result (sound : Sound settings exprs table module)
    (each : EmitsBelow settings exprs table id operand codes) (aggregate : ExprId) (index : Nat) :
    EmitsKind settings exprs table module id operand codes
      ⟨.result aggregate index, type, uses⟩ := by
  have passes : ∀ output, demanded exprs ⟨.result aggregate index, type, uses⟩ = [output] →
      ∀ scope, (output < id → Ready settings exprs scope output) →
      Prepared settings exprs scope id ⟨.result aggregate index, type, uses⟩ := by
    intro output only scope ready
    refine ⟨Scope.declares_of_unnamed rfl (by simp), ?_⟩
    rw [only]
    simpa using ready
  unfold EmitsKind
  cases found : exprs[aggregate]? with
  | none =>
      simp only [emitKind, kindCode, found]
      apply (each aggregate module sound).imp (fun _ among => among)
      exact passes aggregate (by simp [demanded, found])
  | some called =>
      obtain ⟨calledKind, calledType, calledCount⟩ := called
      cases calledKind with
      | call function outputs =>
          simp only [emitKind, kindCode, found]
          cases atIndex : outputs[index]? with
          | none =>
              apply Emits.pure sound
              refine ⟨Scope.declares_of_unnamed rfl (by simp), ?_⟩
              simp [demanded, found, atIndex]
          | some output =>
              apply (each output module sound).imp (fun _ among => among)
              exact passes output (by simp [demanded, found, atIndex])
      | _ =>
          simp only [emitKind, kindCode, found]
          apply (each aggregate module sound).imp (fun _ among => among)
          exact passes aggregate (by simp [demanded, found])

theorem emits_emitKind (sound : Sound settings exprs table module) {expr : Expr}
    (agrees : ∀ name type, expr.parameter? = some (name, type) → table.find? name = some type)
    (each : EmitsBelow settings exprs table id operand codes) :
    EmitsKind settings exprs table module id operand codes expr := by
  obtain ⟨kind, type, uses⟩ := expr
  cases kind with
  | constant value parameter =>
      apply emitsKind_constant sound value parameter
      rintro name rfl
      exact agrees name _ rfl
  | texture name => exact emitsKind_texture sound name
  | sample image coordinate level => exact emitsKind_sample sound each image coordinate level
  | swizzle source components => exact emitsKind_swizzle sound each source components
  | math op operands => exact emitsKind_math sound each op operands
  | call function outputs => exact emitsKind_call sound each function outputs
  | result aggregate index => exact emitsKind_result sound each aggregate index

end Kinds

theorem Sound.bindLocal (sound : Sound settings exprs table module) {id : ExprId} {expr : Expr}
    {type : ValueType} (found : exprs[id]? = some expr) (typed : expr.type = some type)
    (chosen : isShared settings expr = true) (fresh : module.locals.find? id = none)
    (prepared : Prepared settings exprs module.scope id expr) :
    Sound settings exprs table
      { module.addStatement ⟨localName id, type, valueOf settings exprs id expr⟩ with
        locals := module.locals.insert id (localName id) } := by
  obtain ⟨ids, locals, lets⟩ := sound.lets
  have keys : module.locals.keys = ids := by
    rw [locals, Table.keys, List.map_map]
    exact List.map_id ids
  rw [Table.find?_eq_none_iff] at fresh
  refine ⟨sound.declared, ids ++ [id], ?_, ?_⟩
  · rw [Table.insert_of_notMem fresh, locals, List.map_append, List.map_singleton]
  · rw [keys] at fresh
    exact lets.snoc fresh found typed chosen prepared

theorem emits_share (sound : Sound settings exprs table module) {id : ExprId} {expr : Expr}
    (found : exprs[id]? = some expr) (fresh : module.locals.find? id = none)
    (prepared : Prepared settings exprs module.scope id expr) :
    Emits settings exprs table (id < ·) module
      (share settings id expr (valueOf settings exprs id expr)) (codeOf settings exprs id)
      (fun scope => Ready settings exprs scope id) := by
  rw [codeOf_of_some found]
  have unbound : isShared settings expr = false → Ready settings exprs module.scope id := by
    intro kept
    refine .present found ?_ prepared.declared prepared.operands
    intro chosen
    rw [kept] at chosen
    cases chosen
  cases typed : expr.type with
  | none =>
      have kept : isShared settings expr = false := by simp [isShared, typed]
      simp only [share, typed, kept]
      exact Emits.pure sound (unbound kept)
  | some type =>
      have decided : isShared settings expr =
          decide (expr.isComposite = true ∧ settings.shareThreshold.toNat < expr.uses) := by
        simp [isShared, typed]
      simp only [share, typed]
      split
      · rename_i often
        have chosen : isShared settings expr = true := decided.trans (decide_eq_true often)
        rw [if_pos chosen]
        have grown : module.scope.Extends
            (module.addStatement ⟨localName id, type, valueOf settings exprs id expr⟩).scope :=
          ⟨.refl _, List.Subset.refl _, List.prefix_append _ _⟩
        refine ⟨_, rfl, sound.bindLocal found typed chosen fresh prepared, grown, ?_, ?_⟩
        · intro other above
          exact Table.find?_insert_of_ne (Nat.ne_of_lt above) _ _
        · have later := prepared.extend grown
          refine .present found ?_ later.declared later.operands
          intro _
          simp [Scope.names, Module.scope, Module.addStatement]
      · rename_i seldom
        have kept : isShared settings expr = false := decided.trans (decide_eq_false seldom)
        rw [kept]
        exact Emits.pure sound (unbound kept)

theorem emits_shared (sound : Sound settings exprs table module) {id : ExprId} {name : String}
    (known : module.locals.find? id = some name) (spared : ExprId → Prop) :
    Emits settings exprs table spared module (pure (.shared name)) (codeOf settings exprs id)
      (fun scope => Ready settings exprs scope id) := by
  obtain ⟨ids, locals, lets⟩ := sound.lets
  have entry := Table.mem_of_find? known
  rw [locals] at entry
  obtain ⟨other, member, same⟩ := List.mem_map.1 entry
  cases same
  obtain ⟨⟨expr, found, chosen⟩, ready⟩ := lets.ready member
  rw [codeOf_of_some found, if_pos chosen]
  exact Emits.pure sound ready

/-- An expression is emitted as its code, and everything the code refers to is in scope. -/
theorem emits_emit (serves : table.Serves exprs) (sound : Sound settings exprs table module)
    (id : ExprId) :
    Emits settings exprs table (id < ·) module (emit settings exprs id)
      (codeOf settings exprs id) (fun scope => Ready settings exprs scope id) := by
  induction id using Nat.strongRecOn generalizing module with
  | _ id induction =>
      rw [emit]
      apply Emits.get_bind
      cases known : module.locals.find? id with
      | some name => exact emits_shared sound known _
      | none =>
          cases found : exprs[id]? with
          | none =>
              rw [codeOf_of_none found]
              exact Emits.pure sound (.missing found)
          | some expr =>
              have operands : EmitsBelow settings exprs table id
                  (fun other => if other < id then emit settings exprs other else pure .nothing)
                  (fun other => if other < id then codeOf settings exprs other else .nothing) := by
                intro other next soundNext
                by_cases below : other < id
                · simp only [if_pos below]
                  apply (induction other below soundNext).imp
                  · intro last above
                    exact Nat.lt_of_lt_of_le below above
                  · exact fun _ ready _ => ready
                · simp only [if_neg below]
                  exact Emits.pure soundNext fun small => absurd small below
              -- No operand binds a local for the expression itself.
              obtain ⟨next, ran, soundNext, grown, kept, prepared⟩ := emits_emitKind sound
                (serves expr (List.mem_of_getElem? found)) operands
              have fresh := (kept id (Nat.le_refl id)).trans known
              obtain ⟨last, shared, soundLast, grownLast, keptLast, ready⟩ :=
                emits_share soundNext found fresh prepared
              refine ⟨last, ?_, soundLast, grown.trans grownLast, ?_, ready⟩
              · exact (bind_of_ok ran _).trans shared
              · intro other above
                rw [keptLast other above, kept other (Nat.le_of_lt above)]

end MaterialGraph.Wgsl
