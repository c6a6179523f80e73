import MaterialGraph.Proofs.Shader.Functions
import Mathlib.Data.List.Forall2

/-!
Sharing is transparent. In every function of a module each local is bound once, before it is used;
and with the values of its locals in their places, a function returns what it returns when nothing
is shared.
-/

set_option autoImplicit false

namespace MaterialGraph.Shader

open Wgsl

/-- Locals are bound once each, before the locals and the returned values that use them. -/
structure Function.Scoped (function : Function) : Prop where
  distinct : (function.locals.map Statement.name).Nodup
  locals : ∀ before statement after, function.locals = before ++ statement :: after →
    ∀ name ∈ statement.value.locals, name ∈ before.map Statement.name
  returned : ∀ value ∈ function.returned.values, ∀ name ∈ value.locals,
    name ∈ function.locals.map Statement.name

def Returned.map (change : Code → Code) : Returned → Returned
  | record block fields => .record block (fields.map fun field => (field.1, change field.2))
  | colour value => .colour (change value)

def Function.expanded (function : Function) : Returned :=
  function.returned.map (Code.expand (standIn (expansions function.locals)))

structure Function.ExpandsTo (function plain : Function) : Prop where
  name : function.name = plain.name
  wellScoped : function.Scoped
  locals : plain.locals = []
  returned : function.expanded = plain.returned

theorem expand_widen (bound : String → Code) (code : Code) (source target : ValueType) :
    (widen code source target).expand bound = widen (code.expand bound) source target := by
  unfold widen
  split <;> simp

variable {settings : TargetSettings} {wired : WiredMaterial} {compiled : CompiledRoot}
  {uniforms : Parameters} {textures : List String} {function : Function}

/-- What a function returns is made of the code of results and of literals. -/
theorem Writes.holds_returned (writes : Writes settings wired uniforms textures compiled function)
    {holds : Code → Prop}
    (grants : Scope.Grants settings ⟨uniforms, textures, function.locals⟩ holds) :
    ∀ value ∈ function.returned.values, holds value := by
  have widened : ∀ {code}, holds code → ∀ source target, holds (widen code source target) := by
    intro code first source target
    unfold widen
    split
    · exact grants.parts.swizzle first _ _
    · exact grants.parts.convert first _ _
  have stored : ∀ storage fallback source,
      (∀ id, source = some id → id ∈ returnedResults wired compiled) →
      holds (storedCode settings compiled.exprs storage fallback source) := by
    intro storage fallback source listed
    cases source with
    | some id => exact widened (grants.codeOf (writes.ready id (listed id rfl))) _ _
    | none => exact widened (grants.parts.literal fallback) _ _
  rw [writes.returned]
  unfold returnedCode
  cases isBlock : block? wired compiled.root with
  | none =>
      intro value member
      cases List.mem_singleton.1 member
      exact stored _ _ _ fun id found => mem_returnedResults_of_preview isBlock found
  | some block =>
      intro value member
      simp only [Returned.values, List.map_map, List.mem_map] at member
      obtain ⟨port, listed, rfl⟩ := member
      exact stored _ _ _ fun id found => mem_returnedResults isBlock listed found

theorem expand_storedCode {bound : String → Code} {storage : ValueType} {fallback : Literal}
    {source : Option ExprId}
    (results : ∀ id, source = some id → (codeOf settings compiled.exprs id).expand bound =
      codeOf (unshared settings) compiled.exprs id) :
    (storedCode settings compiled.exprs storage fallback source).expand bound =
      storedCode (unshared settings) compiled.exprs storage fallback source := by
  cases source with
  | some id => rw [storedCode, expand_widen, results id rfl, storedCode]
  | none => rw [storedCode, expand_widen, Code.expand_literal, storedCode]

theorem Writes.wellScoped (writes : Writes settings wired uniforms textures compiled function) :
    function.Scoped := by
  obtain ⟨ids, lets⟩ := writes.lets
  refine ⟨lets.nodup, ?_, ?_⟩
  · intro before statement after split
    exact lets.holds_value split (grants_locals settings _)
  · exact writes.holds_returned (grants_locals settings _)

theorem Writes.expanded (writes : Writes settings wired uniforms textures compiled function) :
    function.expanded = returnedCode (unshared settings) wired compiled := by
  obtain ⟨ids, lets⟩ := writes.lets
  have results : ∀ id ∈ returnedResults wired compiled,
      (codeOf settings compiled.exprs id).expand (standIn (expansions function.locals)) =
        codeOf (unshared settings) compiled.exprs id := by
    intro id member
    apply (writes.ready id member).expand
    intro other bound
    rw [standIn, lets.expansion bound, Option.getD_some]
  unfold Function.expanded
  rw [writes.returned]
  unfold returnedCode
  cases isBlock : block? wired compiled.root with
  | none =>
      apply congrArg Returned.colour
      apply expand_storedCode
      intro id found
      exact results id (mem_returnedResults_of_preview isBlock found)
  | some block =>
      simp only [Returned.map, List.map_map]
      apply congrArg (Returned.record block)
      apply List.map_congr_left
      intro port listed
      apply congrArg (Prod.mk port)
      apply expand_storedCode
      intro id found
      exact results id (mem_returnedResults isBlock listed found)

theorem lets_unshared {exprs : ExprList} {ids : List ExprId} {statements : List Statement}
    (lets : Lets (unshared settings) exprs uniforms textures ids statements) : statements = [] := by
  cases lets with
  | nil => rfl
  | snoc earlier fresh found typed chosen prepared =>
      rw [isShared_unshared] at chosen
      cases chosen

theorem sharing_transparent {configuration : Settings} {graph : Material}
    {compiled : CompiledGraph} (ok : configuration.compile graph = .ok compiled)
    (settings : TargetSettings) :
    ∃ functions module plain plainModule,
      emitFunctions settings compiled = .ok (functions, module) ∧
      emitFunctions { settings with shareThreshold := 0xFFFFFFFF } compiled =
        .ok (plain, plainModule) ∧
      functions.length = compiled.compiledRoots.length ∧
      List.Forall₂ Function.ExpandsTo functions plain := by
  obtain ⟨functions, module, emitted, written⟩ := emitFunctions_run ok settings
  obtain ⟨plain, plainModule, emittedPlain, writtenPlain⟩ :=
    emitFunctions_run ok (unshared settings)
  refine ⟨functions, module, plain, plainModule, emitted, emittedPlain, written.length_eq.symm, ?_⟩
  apply (forall₂_trans written.flip writtenPlain).imp
  rintro function plain ⟨root, writes, writesPlain⟩
  obtain ⟨ids, lets⟩ := writesPlain.lets
  exact ⟨writes.name.trans writesPlain.name.symm, writes.wellScoped, lets_unshared lets,
    writes.expanded.trans writesPlain.returned.symm⟩

theorem squared_locals :
    ((emitFunctions .standard Sample.squaredCompiled).toOption.map fun (functions, _) =>
      functions.map fun function => function.locals.map Statement.name) = some [["e1"]] := by
  decide +kernel

theorem sharing_transparent_squared :
    ∃ functions plain, List.Forall₂ Function.ExpandsTo functions plain ∧
      (functions.map fun function => function.locals.map Statement.name) = [["e1"]] := by
  have ok : Settings.compile ⟨1, .collectAll, .strict, .standard⟩ Sample.squared =
      .ok Sample.squaredCompiled := Sample.squared_compile rfl rfl
  obtain ⟨functions, module, plain, plainModule, emitted, _, _, shared⟩ :=
    sharing_transparent ok .standard
  refine ⟨functions, plain, shared, ?_⟩
  have locals := squared_locals
  rw [emitted] at locals
  exact Option.some.inj locals

end MaterialGraph.Shader
