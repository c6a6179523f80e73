import MaterialGraph.Proofs.Wgsl.Run
import MaterialGraph.Proofs.Wgsl.WellTyped

/-!
How often code is written for an expression. Emission that also notes each expression whose code it
builds is emission, once the notes are dropped. An expression with a local is noted once, however
often it is asked for; any other one is noted each time that it is returned or that an expression
noted itself asks for it.
-/

set_option autoImplicit false

namespace MaterialGraph.Wgsl

section Noting

variable (settings : TargetSettings) (exprs : ExprList)

def declareExpr (expr : Expr) : Emit Unit :=
  match expr.kind with
  | .constant value (some name) => declareUniform name (expr.type.getD value.type)
  | .texture name => declareTexture name
  | _ => pure ()

def assembled (expr : Expr) (codes : List Code) : Code :=
  match expr.kind with
  | .constant value none => .literal value
  | .constant _ (some name) => .uniform settings.uniformBinding name
  | .texture name => .texture name
  | .sample _ _ _ => .sample (codes[0]?.getD .nothing) (codes[1]?.getD .nothing) codes[2]?
  | .swizzle source components =>
      (codes.head?.getD .nothing).swizzle (operandType exprs .vec4 source) components
  | .math op operands =>
      .math op (codes.zip (operands.map (operandType exprs .scalar))) (expr.type.getD .scalar)
  | .call _ _ => codes.head?.getD .nothing
  | .result _ _ => codes.head?.getD .nothing

def gather {Item Value : Type} (steps : Item → Emit (Value × List ExprId)) (items : List Item) :
    Emit (List Value × List ExprId) := do
  let parts ← items.mapM steps
  pure (parts.map Prod.fst, parts.flatMap Prod.snd)

/-- Emission that notes the expressions whose code is built, operands first. -/
def emitNoting (id : ExprId) : Emit (Code × List ExprId) := do
  let module ← get
  match module.locals.find? id with
  | some name => pure (.shared name, [])
  | none =>
      match exprs[id]? with
      | none => pure (.nothing, [])
      | some expr => do
          declareExpr expr
          let (codes, rendered) ← gather
            (fun operand => if operand < id then emitNoting operand else pure (.nothing, []))
            (demanded exprs expr)
          let code ← share settings id expr (assembled settings exprs expr codes)
          pure (code, rendered ++ [id])
termination_by id

end Noting

section Forgetting

variable {settings : TargetSettings} {exprs : ExprList}

theorem run_of_forget {Value : Type} {noting : Emit (Value × List ExprId)} {plain : Emit Value}
    (forgets : Prod.fst <$> noting = plain) {module next : Module} {value : Value}
    {rendered : List ExprId} (ran : noting module = .ok (value, rendered) next) :
    plain module = .ok value next := by
  rw [← forgets, map_eq_pure_bind]
  exact bind_of_ok ran _

theorem mapM_zip_map {Item Value Other : Type} (steps : Item → Emit Value) (change : Item → Other)
    (items : List Item) :
    (items.mapM fun item => (fun value => (value, change item)) <$> steps item) =
      (fun values => values.zip (items.map change)) <$> items.mapM steps := by
  induction items with
  | nil => rfl
  | cons first rest induction => simp [List.mapM_cons, induction]

theorem map_mapM {Item Value Other : Type} {steps : Item → Emit Value} {change : Value → Other}
    {changed : Item → Emit Other} {items : List Item}
    (each : ∀ item ∈ items, change <$> steps item = changed item) :
    List.map change <$> items.mapM steps = items.mapM changed := by
  induction items with
  | nil => rfl
  | cons first rest induction =>
      rw [List.forall_mem_cons] at each
      simp only [List.mapM_cons, ← each.1, ← induction each.2, map_bind, map_pure, bind_map_left,
        List.map_cons]

theorem gather_forget {Item Value : Type} {steps : Item → Emit (Value × List ExprId)}
    {plain : Item → Emit Value} {items : List Item}
    (each : ∀ item ∈ items, Prod.fst <$> steps item = plain item) :
    Prod.fst <$> gather steps items = items.mapM plain := by
  rw [← map_mapM each]
  simp only [gather, map_eq_pure_bind, bind_assoc, pure_bind]

/-- Emission by kind declares what is read, emits the operands in order, and puts their codes
together. -/
theorem emitKind_eq (operand : ExprId → Emit Code) (expr : Expr) :
    emitKind settings exprs operand expr =
      (do
        declareExpr expr
        let codes ← (demanded exprs expr).mapM operand
        pure (assembled settings exprs expr codes)) := by
  obtain ⟨kind, type, useCount⟩ := expr
  cases kind with
  | constant value parameter =>
      cases parameter <;>
        simp [emitKind, declareExpr, demanded, assembled, Expr.parameter?, ExprKind.operands]
  | texture name => simp [emitKind, declareExpr, demanded, assembled, ExprKind.operands]
  | sample image coordinate level =>
      cases level <;>
        simp [emitKind, declareExpr, demanded, assembled, ExprKind.operands, List.mapM_cons]
  | swizzle source components =>
      simp [emitKind, declareExpr, demanded, assembled, ExprKind.operands, List.mapM_cons]
  | math op operands =>
      simp [emitKind, declareExpr, demanded, assembled, ExprKind.operands, mapM_zip_map]
  | call function outputs =>
      simp [emitKind, declareExpr, demanded, assembled, ExprKind.operands]
  | result aggregate index =>
      cases found : exprs[aggregate]? with
      | none => simp [emitKind, declareExpr, demanded, assembled, found, List.mapM_cons]
      | some called =>
          obtain ⟨calledKind, calledType, calledCount⟩ := called
          cases calledKind with
          | call function outputs =>
              cases atIndex : outputs[index]? <;>
                simp [emitKind, declareExpr, demanded, assembled, found, atIndex, List.mapM_cons]
          | _ => simp [emitKind, declareExpr, demanded, assembled, found, List.mapM_cons]

theorem emitNoting_forget (id : ExprId) :
    Prod.fst <$> emitNoting settings exprs id = emit settings exprs id := by
  induction id using Nat.strongRecOn with
  | _ id induction =>
      rw [emitNoting, emit, map_bind]
      apply bind_congr
      intro module
      cases module.locals.find? id with
      | some name => rfl
      | none =>
          cases exprs[id]? with
          | none => rfl
          | some expr =>
              have operands : ∀ operand ∈ demanded exprs expr,
                  Prod.fst <$> (if operand < id then emitNoting settings exprs operand
                    else pure (.nothing, [])) =
                    if operand < id then emit settings exprs operand else pure .nothing := by
                intro operand _
                split
                · rename_i below
                  exact induction operand below
                · rfl
              simp only [emitKind_eq, ← gather_forget operands, map_bind, map_pure, bind_assoc,
                pure_bind, bind_map_left, bind_pure]

end Forgetting

section Tally

variable (settings : TargetSettings) (exprs : ExprList)

def local? (id : ExprId) : Option Statement :=
  match exprs[id]? with
  | none => none
  | some expr =>
      if isShared settings expr then
        expr.type.map fun type => ⟨localName id, type, valueOf settings exprs id expr⟩
      else none

def needs (id : ExprId) : List ExprId :=
  match exprs[id]? with
  | none => []
  | some expr => demanded exprs expr

def binds (id : ExprId) : Bool := (exprs[id]?).any (isShared settings)

/-- How often expressions are rendered where some are asked for, and some have locals before: one
that becomes a local once at most, any other as often as it is asked for, there or by what is
rendered. -/
structure Tally (before asked rendered : List ExprId) : Prop where
  below : ∀ id ∈ rendered, ∃ first ∈ asked, id ≤ first
  counted : ∀ id expr, exprs[id]? = some expr →
    rendered.count id =
      if isShared settings expr then
        if id ∈ before then 0 else min 1 ((asked ++ rendered.flatMap (needs exprs)).count id)
      else (asked ++ rendered.flatMap (needs exprs)).count id

end Tally

variable {settings : TargetSettings} {exprs : ExprList} {before : List ExprId}

theorem binds_eq_true_iff {id : ExprId} :
    binds settings exprs id = true ↔ ∃ expr, exprs[id]? = some expr ∧ isShared settings expr := by
  rw [binds, Option.any_eq_true]

theorem needs_of_some {id : ExprId} {expr : Expr} (found : exprs[id]? = some expr) :
    needs exprs id = demanded exprs expr := by
  rw [needs, found]

theorem exists_of_mem_needs {id operand : ExprId} (member : operand ∈ needs exprs id) :
    ∃ expr, exprs[id]? = some expr ∧ operand ∈ demanded exprs expr := by
  unfold needs at member
  split at member
  · cases member
  · exact ⟨_, by assumption, member⟩

/-- Locals are the values of the expressions that were bound, in that order. -/
theorem Lets.statements_eq {uniforms : Parameters} {textures : List String} {ids : List ExprId}
    {statements : List Statement} (lets : Lets settings exprs uniforms textures ids statements) :
    statements = ids.filterMap (local? settings exprs) := by
  induction lets with
  | nil => rfl
  | snoc earlier fresh found typed chosen prepared induction =>
      simp [induction, local?, found, chosen, typed]

theorem filterMap_local? (rendered : List ExprId) :
    (rendered.filter (binds settings exprs)).filterMap (local? settings exprs) =
      rendered.filterMap (local? settings exprs) := by
  rw [List.filterMap_filter]
  apply List.filterMap_congr
  intro id _
  cases found : exprs[id]? with
  | none => simp [local?, found]
  | some expr =>
      cases chosen : isShared settings expr <;> simp [binds, local?, found, chosen]

namespace Tally

variable {asked rendered : List ExprId}

theorem nothing : Tally settings exprs before [] [] :=
  ⟨fun _ member => absurd member List.not_mem_nil, fun id expr _ => by simp⟩

theorem missing {id : ExprId} (absent : exprs[id]? = none) :
    Tally settings exprs before [id] [] := by
  refine ⟨fun _ member => absurd member List.not_mem_nil, fun other expr found => ?_⟩
  have different : id ≠ other := by
    rintro rfl
    cases absent.symm.trans found
  simp [different]

theorem known {id : ExprId} (bound : id ∈ before) (chosen : binds settings exprs id = true) :
    Tally settings exprs before [id] [] := by
  refine ⟨fun _ member => absurd member List.not_mem_nil, fun other expr found => ?_⟩
  by_cases same : id = other
  · subst same
    obtain ⟨_, foundToo, isShared⟩ := binds_eq_true_iff.1 chosen
    cases found.symm.trans foundToo
    simp [isShared, bound]
  · simp [same]

theorem append {more later : List ExprId} (first : Tally settings exprs before asked rendered)
    (second : Tally settings exprs (before ++ rendered.filter (binds settings exprs)) more later) :
    Tally settings exprs before (asked ++ more) (rendered ++ later) := by
  constructor
  · intro id member
    rcases List.mem_append.1 member with early | late
    · obtain ⟨top, listed, below⟩ := first.below id early
      exact ⟨top, List.mem_append_left _ listed, below⟩
    · obtain ⟨top, listed, below⟩ := second.below id late
      exact ⟨top, List.mem_append_right _ listed, below⟩
  · intro id expr found
    have early := first.counted id expr found
    have late := second.counted id expr found
    simp only [List.flatMap_append, List.count_append] at early late ⊢
    cases chosen : isShared settings expr with
    | false =>
        rw [chosen] at early late
        simp only [Bool.false_eq_true, if_false] at early late ⊢
        omega
    | true =>
        have binds : binds settings exprs id = true := binds_eq_true_iff.2 ⟨expr, found, chosen⟩
        have here : id ∈ rendered.filter (Wgsl.binds settings exprs) ↔ 0 < rendered.count id := by
          rw [List.count_pos_iff, List.mem_filter, and_iff_left binds]
        rw [chosen] at early late
        simp only [if_true, List.mem_append, here] at early late ⊢
        by_cases bound : id ∈ before
        · simp only [bound, if_true, true_or] at early late ⊢
          omega
        · simp only [bound, if_false, false_or] at early late ⊢
          split at late <;> omega

/-- An expression is rendered after what its code asks for. -/
theorem render {id : ExprId} {expr : Expr} (found : exprs[id]? = some expr)
    (ordered : exprs.OrderedFrom 0) (fresh : id ∉ before)
    (operands : Tally settings exprs before (demanded exprs expr) rendered) :
    Tally settings exprs before [id] (rendered ++ [id]) := by
  have earlier : ∀ other ∈ rendered, other < id := by
    intro other member
    obtain ⟨top, listed, below⟩ := operands.below other member
    exact Nat.lt_of_le_of_lt below (lt_of_mem_demanded ordered found listed)
  constructor
  · intro other member
    rcases List.mem_append.1 member with early | last
    · exact ⟨id, List.mem_cons_self, Nat.le_of_lt (earlier other early)⟩
    · cases List.mem_singleton.1 last
      exact ⟨id, List.mem_cons_self, Nat.le_refl id⟩
  · intro other otherExpr foundOther
    have counted := operands.counted other otherExpr foundOther
    simp only [List.flatMap_append, List.flatMap_singleton, needs_of_some found,
      List.count_append] at counted ⊢
    by_cases same : id = other
    · -- Nothing below the expression asks for it.
      subst same
      have unasked : (rendered.flatMap (needs exprs)).count id = 0 := by
        apply List.count_eq_zero.2
        intro member
        obtain ⟨asker, listed, wants⟩ := List.mem_flatMap.1 member
        obtain ⟨askerExpr, atAsker, demands⟩ := exists_of_mem_needs wants
        exact Nat.lt_asymm (earlier asker listed) (lt_of_mem_demanded ordered atAsker demands)
      have notItself : (demanded exprs expr).count id = 0 :=
        List.count_eq_zero.2 fun member =>
          Nat.lt_irrefl id (lt_of_mem_demanded ordered found member)
      have notBefore : rendered.count id = 0 :=
        List.count_eq_zero.2 fun member => Nat.lt_irrefl id (earlier id member)
      simp [unasked, notItself, notBefore, fresh]
    · have different : ([id] : List ExprId).count other = 0 := by simp [same]
      rw [different, Nat.add_zero, Nat.zero_add, Nat.add_comm _ ((demanded exprs expr).count other)]
      exact counted

end Tally

variable {table : Parameters} {module : Module}

/-- Steps that ask for some expressions: what they note is tallied, and what they note of
expressions that become locals is bound, in that order. -/
def Tallies {Value : Type} (settings : TargetSettings) (exprs : ExprList) (table : Parameters)
    (steps : Emit (Value × List ExprId)) (asked : List ExprId) : Prop :=
  ∀ module value rendered next, Sound settings exprs table module →
    steps module = .ok (value, rendered) next →
    Sound settings exprs table next ∧
      next.locals.keys = module.locals.keys ++ rendered.filter (binds settings exprs) ∧
      Tally settings exprs module.locals.keys asked rendered

namespace Tallies

variable {Value Other Item : Type} {asked : List ExprId}

theorem pure (value : Value) :
    Tallies settings exprs table (Pure.pure (value, []) : Emit (Value × List ExprId)) [] := by
  intro module other rendered next sound ran
  cases ran
  exact ⟨sound, (List.append_nil _).symm, .nothing⟩

theorem andPure {steps : Emit (Value × List ExprId)}
    (first : Tallies settings exprs table steps asked) (change : Value → Other) :
    Tallies settings exprs table
      (do
        let (value, rendered) ← steps
        Pure.pure (change value, rendered)) asked := by
  intro module value rendered next sound ran
  obtain ⟨⟨middle, noted⟩, last, ranFirst, ended⟩ := exists_of_bind_eq_ok ran
  cases ended
  exact first _ _ _ _ sound ranFirst

theorem gather {steps : Item → Emit (Value × List ExprId)} {asked : Item → List ExprId}
    {items : List Item}
    (each : ∀ item ∈ items, Tallies settings exprs table (steps item) (asked item)) :
    Tallies settings exprs table (gather steps items) (items.flatMap asked) := by
  induction items with
  | nil => exact pure []
  | cons item rest induction =>
      rw [List.forall_mem_cons] at each
      intro module values rendered next sound ran
      obtain ⟨parts, last, ranParts, ended⟩ := exists_of_bind_eq_ok ran
      cases ended
      rw [List.mapM_cons] at ranParts
      obtain ⟨⟨value, noted⟩, middle, ranFirst, ranRest⟩ := exists_of_bind_eq_ok ranParts
      obtain ⟨others, _, ranOthers, ended⟩ := exists_of_bind_eq_ok ranRest
      cases ended
      obtain ⟨soundMiddle, keys, tally⟩ := each.1 _ _ _ _ sound ranFirst
      have gathered : Wgsl.gather steps rest middle =
          .ok (others.map Prod.fst, others.flatMap Prod.snd) next := bind_of_ok ranOthers _
      obtain ⟨soundLast, later, tallyRest⟩ := induction each.2 _ _ _ _ soundMiddle gathered
      rw [keys] at later tallyRest
      refine ⟨soundLast, ?_, ?_⟩
      · rw [later, List.flatMap_cons, List.filter_append, List.append_assoc]
      · rw [List.flatMap_cons, List.flatMap_cons]
        exact tally.append tallyRest

end Tallies

theorem sound_declareExpr {expr : Expr}
    (agrees : ∀ name type, expr.parameter? = some (name, type) → table.find? name = some type)
    (sound : Sound settings exprs table module) {next : Module}
    (ran : declareExpr expr module = .ok () next) :
    Sound settings exprs table next ∧ next.locals.keys = module.locals.keys := by
  have kept : ∀ {steps : Emit Unit} {post : Scope → Prop},
      Emits settings exprs table (fun _ => False) module steps () post →
      steps module = .ok () next → Sound settings exprs table next := by
    rintro steps post ⟨last, ranToo, soundLast, _⟩ ran
    cases ranToo.symm.trans ran
    exact soundLast
  obtain ⟨kind, type, useCount⟩ := expr
  cases kind with
  | constant value parameter =>
      cases parameter with
      | none =>
          cases ran
          exact ⟨sound, rfl⟩
      | some name =>
          refine ⟨kept (emits_declareUniform sound (agrees name _ rfl) _) ran, ?_⟩
          change declareUniform name _ module = _ at ran
          unfold declareUniform at ran
          split at ran <;> cases ran <;> rfl
  | texture name =>
      refine ⟨kept (emits_declareTexture sound name _) ran, ?_⟩
      cases ran
      change (if _ then module else module.addTexture name).locals.keys = _
      split <;> rfl
  | _ =>
      cases ran
      exact ⟨sound, rfl⟩

theorem keys_share {id : ExprId} {expr : Expr} (found : exprs[id]? = some expr)
    {code value : Code} {next : Module} (fresh : id ∉ module.locals.keys)
    (ran : share settings id expr code module = .ok value next) :
    next.locals.keys = module.locals.keys ++ [id].filter (binds settings exprs) := by
  have chosen : binds settings exprs id = isShared settings expr := by
    rw [binds, found, Option.any_some]
  rw [List.filter_singleton, chosen]
  cases typed : expr.type with
  | none =>
      simp only [share, typed] at ran
      cases ran
      simp [isShared, typed]
  | some type =>
      have decided : isShared settings expr =
          decide (expr.isComposite = true ∧ settings.shareThreshold.toNat < expr.uses) := by
        simp [isShared, typed]
      simp only [share, typed] at ran
      split at ran
      · rename_i often
        cases ran
        simp [decided, often, Table.insert_of_notMem fresh, Table.keys]
      · rename_i seldom
        cases ran
        simp [decided, seldom]

/-- What emission of an expression notes is tallied. -/
theorem tallies_emitNoting (serves : table.Serves exprs) (ordered : exprs.OrderedFrom 0)
    (id : ExprId) : Tallies settings exprs table (emitNoting settings exprs id) [id] := by
  induction id using Nat.strongRecOn with
  | _ id induction =>
      intro module code rendered next sound ran
      have soundNext : Sound settings exprs table next := by
        obtain ⟨last, ranToo, soundLast, _⟩ := emits_emit serves sound id
        cases ranToo.symm.trans (run_of_forget (emitNoting_forget id) ran)
        exact soundLast
      refine ⟨soundNext, ?_⟩
      rw [emitNoting] at ran
      obtain ⟨_, _, got, ran⟩ := exists_of_bind_eq_ok ran
      cases got
      cases known : module.locals.find? id with
      | some name =>
          rw [known] at ran
          cases ran
          -- Only shared expressions have locals.
          obtain ⟨ids, locals, lets⟩ := sound.lets
          have bound : id ∈ module.locals.keys := List.mem_map_of_mem (Table.mem_of_find? known)
          have listed : id ∈ ids := by
            rw [locals, Table.keys, List.map_map] at bound
            simpa using bound
          refine ⟨(List.append_nil _).symm, .known bound ?_⟩
          exact binds_eq_true_iff.2 (lets.ready listed).1
      | none =>
          rw [known] at ran
          have fresh : id ∉ module.locals.keys := Table.find?_eq_none_iff.1 known
          cases found : exprs[id]? with
          | none =>
              rw [found] at ran
              cases ran
              exact ⟨(List.append_nil _).symm, .missing found⟩
          | some expr =>
              rw [found] at ran
              obtain ⟨_, declared, ranDeclare, ran⟩ := exists_of_bind_eq_ok ran
              obtain ⟨⟨codes, noted⟩, middle, gathered, ran⟩ := exists_of_bind_eq_ok ran
              obtain ⟨_, last, shared, ended⟩ := exists_of_bind_eq_ok ran
              cases ended
              obtain ⟨soundDeclared, kept⟩ := sound_declareExpr
                (serves expr (List.mem_of_getElem? found)) sound ranDeclare
              have operands : ∀ operand ∈ demanded exprs expr, Tallies settings exprs table
                  (if operand < id then emitNoting settings exprs operand
                    else pure (.nothing, [])) [operand] := by
                intro operand demands
                have below := lt_of_mem_demanded ordered found demands
                rw [if_pos below]
                exact induction operand below
              obtain ⟨_, keys, tally⟩ := Tallies.gather operands _ _ _ _ soundDeclared gathered
              rw [List.flatMap_singleton', kept] at tally
              refine ⟨?_, tally.render found ordered fresh⟩
              have unbound : id ∉ middle.locals.keys := by
                rw [keys, kept, List.mem_append, List.mem_filter]
                rintro (old | ⟨early, _⟩)
                · exact fresh old
                · obtain ⟨top, demands, below⟩ := tally.below id early
                  exact Nat.not_lt.2 below (lt_of_mem_demanded ordered found demands)
              rw [keys_share found unbound shared, keys, kept, List.filter_append,
                List.append_assoc]

end MaterialGraph.Wgsl
