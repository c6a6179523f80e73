import MaterialGraph.Graph.Typing
import MaterialGraph.Proofs.Wgsl.Sharing

/-!
Types of shader code. Arithmetic works lane by lane and repeats a scalar operand; the other
operations need operands of one type. Selections, conversions and math operations give code of the
types they are made for.
-/

set_option autoImplicit false

namespace MaterialGraph.Wgsl

/-- The type of an operation that works lane by lane and repeats a scalar operand. -/
inductive Broadcast : ValueType → ValueType → ValueType → Prop
  | same {type : ValueType} : TypeSet.numeric.contains type = true → Broadcast type type type
  | left {type : ValueType} : TypeSet.vectors.contains type = true → Broadcast .scalar type type
  | right {type : ValueType} : TypeSet.vectors.contains type = true → Broadcast type .scalar type

/-- The types of code in a scope whose uniforms are in one variable. -/
inductive HasType (holder : String) (scope : Scope) : Code → ValueType → Prop
  | float {value : Single} : value.isFinite = true → HasType holder scope (.float value) .scalar
  | uniform {name : String} {type : ValueType} : scope.uniforms.find? name = some type →
      HasType holder scope (.uniform holder name) type
  | shared {statement : Statement} : statement ∈ scope.statements →
      HasType holder scope (.shared statement.name) statement.type
  | sample {name : String} {coordinate : Code} : name ∈ scope.textures →
      HasType holder scope coordinate .vec2 →
      HasType holder scope (.sample (.texture name) coordinate none) .vec4
  | sampleLevel {name : String} {coordinate level : Code} : name ∈ scope.textures →
      HasType holder scope coordinate .vec2 → HasType holder scope level .scalar →
      HasType holder scope (.sample (.texture name) coordinate (some level)) .vec4
  | select {source : Code} {vector type : ValueType} {width : Nat} {lanes : List Lane} :
      HasType holder scope source vector → vector.lanes? = some width → 2 ≤ width →
      (∀ lane ∈ lanes, lane.index < width) → type.lanes? = some lanes.length →
      HasType holder scope (.select source lanes) type
  | splat {part : Code} {type : ValueType} : HasType holder scope part .scalar →
      TypeSet.vectors.contains type = true → HasType holder scope (.construct type [part]) type
  | construct {parts : List Code} {type : ValueType} :
      (∀ part ∈ parts, HasType holder scope part .scalar) → type.lanes? = some parts.length →
      2 ≤ parts.length → HasType holder scope (.construct type parts) type
  | arithmetic {operator : Arithmetic} {left right : Code} {leftType rightType type : ValueType} :
      HasType holder scope left leftType → HasType holder scope right rightType →
      Broadcast leftType rightType type →
      HasType holder scope (.arithmetic operator left right) type
  | pair {function : String} {left right : Code} {type : ValueType} :
      function ∈ ["min", "max", "pow"] → HasType holder scope left type →
      HasType holder scope right type → TypeSet.numeric.contains type = true →
      HasType holder scope (.apply function [left, right]) type
  | mix {first second amount : Code} {type amountType : ValueType} :
      HasType holder scope first type → HasType holder scope second type →
      HasType holder scope amount amountType → TypeSet.numeric.contains type = true →
      amountType = type ∨ amountType = .scalar →
      HasType holder scope (.apply "mix" [first, second, amount]) type
  | dot {left right : Code} {type : ValueType} : HasType holder scope left type →
      HasType holder scope right type → TypeSet.vectors.contains type = true →
      HasType holder scope (.apply "dot" [left, right]) .scalar
  | normalize {value : Code} {type : ValueType} : HasType holder scope value type →
      TypeSet.vectors.contains type = true →
      HasType holder scope (.apply "normalize" [value]) type
  | unary {function : String} {value : Code} {type : ValueType} :
      function ∈ ["sin", "cos", "abs", "saturate"] → HasType holder scope value type →
      TypeSet.numeric.contains type = true → HasType holder scope (.apply function [value]) type

variable {holder : String} {scope : Scope}

theorem exists_lanes_of_numeric {type : ValueType}
    (numeric : TypeSet.numeric.contains type = true) :
    ∃ width, type.lanes? = some width := by
  cases type with
  | texture => cases numeric
  | _ => exact ⟨_, rfl⟩

theorem numeric_of_lanes {type : ValueType} {width : Nat} (counted : type.lanes? = some width) :
    TypeSet.numeric.contains type = true := by
  cases type with
  | texture => cases counted
  | _ => rfl

theorem numeric_of_ne_texture {type : ValueType} (different : type ≠ .texture) :
    TypeSet.numeric.contains type = true := by
  cases type with
  | texture => exact absurd rfl different
  | _ => rfl

theorem numeric_of_vectors {type : ValueType} (vector : TypeSet.vectors.contains type = true) :
    TypeSet.numeric.contains type = true := by
  cases type with
  | texture => cases vector
  | _ => rfl

theorem vectors_of_ne_scalar {type : ValueType} (numeric : TypeSet.numeric.contains type = true)
    (different : type ≠ .scalar) : TypeSet.vectors.contains type = true := by
  cases type with
  | scalar => exact absurd rfl different
  | texture => cases numeric
  | _ => rfl

theorem two_le_of_ne_scalar {type : ValueType} {width : Nat} (counted : type.lanes? = some width)
    (different : type ≠ .scalar) : 2 ≤ width := by
  cases type <;> cases counted <;> first | omega | exact absurd rfl different

namespace HasType

theorem literal {value : Literal} (finite : value.isFinite = true) :
    HasType holder scope (.literal value) value.type := by
  have lanes : ∀ part ∈ value.lanes.map Code.float, HasType holder scope part .scalar := by
    intro part member
    obtain ⟨lane, listed, rfl⟩ := List.mem_map.1 member
    exact .float (List.all_eq_true.1 finite lane listed)
  have counted := value.lanes_length
  rw [← List.length_map Code.float] at counted
  cases value with
  | scalar x => exact lanes _ List.mem_cons_self
  | _ => exact .construct lanes counted (by simp [Literal.lanes])

variable {source : Code} {type target : ValueType} {width : Nat}

theorem component (typed : HasType holder scope source type) (counted : type.lanes? = some width)
    {component : Component} (inside : ∀ lane, component = .lane lane → lane.index < width) :
    HasType holder scope (source.component type component) .scalar := by
  cases component with
  | zero => exact .float rfl
  | one => exact .float rfl
  | lane lane =>
      have below := inside lane rfl
      simp only [Code.component]
      split
      · rename_i first
        exact first.1 ▸ typed
      · rename_i other
        have wide : 2 ≤ width := by
          apply two_le_of_ne_scalar counted
          rintro rfl
          cases counted
          cases lane <;> simp [Lane.index] at below other
        exact .select typed counted wide (by simpa using below) rfl

theorem assemble {parts : List Code} (typed : ∀ part ∈ parts, HasType holder scope part .scalar)
    (counted : target.lanes? = some parts.length) (several : 2 ≤ parts.length) :
    HasType holder scope (.assemble parts) target := by
  have found := (ValueType.ofLanes?_eq_some_iff parts.length target).2 counted
  unfold Code.assemble
  rw [found]
  cases target with
  | scalar =>
      have one : 1 = parts.length := Option.some.inj counted
      omega
  | texture => cases counted
  | _ => exact .construct typed counted several

/-- Selecting and filling components gives a value with as many lanes. -/
theorem swizzle (typed : HasType holder scope source type) (counted : type.lanes? = some width)
    {components : List Component} (inside : ∀ lane, .lane lane ∈ components → lane.index < width)
    (result : target.lanes? = some components.length) :
    HasType holder scope (source.swizzle type components) target := by
  have found := (ValueType.ofLanes?_eq_some_iff components.length target).2 result
  unfold Code.swizzle
  split
  · rename_i repeated
    obtain ⟨rfl, _⟩ := repeated
    rw [found]
    cases target with
    | scalar => exact typed
    | texture => cases result
    | _ => exact .splat typed rfl
  split
  · rename_i selected
    obtain ⟨different, lanes⟩ := selected
    have chosen : (components.filterMap Component.lane?).length = components.length := by
      rw [List.length_filterMap_eq_countP, List.countP_eq_length]
      exact List.all_eq_true.1 lanes
    apply HasType.select typed counted (two_le_of_ne_scalar counted different)
    · intro lane member
      obtain ⟨component, listed, selects⟩ := List.mem_filterMap.1 member
      cases component with
      | lane other =>
          cases selects
          exact inside _ listed
      | zero => cases selects
      | one => cases selects
    · rw [chosen]
      exact result
  · have parts : ∀ component ∈ components,
        HasType holder scope (source.component type component) .scalar := by
      intro component listed
      apply HasType.component typed counted
      rintro lane rfl
      exact inside lane listed
    split
    · rename_i only _ _
      cases target <;> cases result
      exact parts only List.mem_cons_self
    · rename_i several
      apply HasType.assemble
      · intro part member
        obtain ⟨component, listed, rfl⟩ := List.mem_map.1 member
        exact parts component listed
      · rw [List.length_map]
        exact result
      · rw [List.length_map]
        match components, result with
        | [], result => cases target <;> cases result
        | [only], _ => exact absurd rfl (several only)
        | _ :: _ :: _, _ => simp

end HasType

/-- A cast selects lanes that the source has, and fills the others. -/
theorem index_lt_of_mem_cast {source target : ValueType} {width : Nat}
    (counted : source.lanes? = some width) {lane : Lane}
    (member : .lane lane ∈ Component.cast source target) : lane.index < width := by
  unfold Component.cast at member
  rw [counted] at member
  split at member
  · rename_i width _ same _
    cases same
    obtain ⟨position, _, chosen⟩ := List.mem_map.1 member
    split at chosen
    · rename_i scalar
      cases chosen
      rw [scalar]
      decide
    split at chosen
    · cases chosen
      have bound : (Lane.ofIndex position).index ≤ position := by
        rcases position with _ | _ | _ | rest <;> simp [Lane.ofIndex, Lane.index]
      omega
    split at chosen <;> cases chosen
  · cases member

theorem length_cast {source target : ValueType} {width count : Nat}
    (counted : source.lanes? = some width) (wanted : target.lanes? = some count) :
    (Component.cast source target).length = count := by
  unfold Component.cast
  rw [counted, wanted]
  simp

namespace HasType

variable {code : Code} {source target : ValueType}

theorem convert (typed : HasType holder scope code source)
    (numeric : TypeSet.numeric.contains source = true)
    (wanted : TypeSet.numeric.contains target = true) :
    HasType holder scope (code.convert source target) target := by
  unfold Code.convert
  split
  · rename_i same
    exact same ▸ typed
  · obtain ⟨width, counted⟩ := exists_lanes_of_numeric numeric
    obtain ⟨count, result⟩ := exists_lanes_of_numeric wanted
    apply HasType.swizzle typed counted
    · intro lane member
      exact index_lt_of_mem_cast counted member
    · rw [length_cast counted result]
      exact result

end HasType

theorem broadcast_of_widen {op : MathOp} {left right result : ValueType}
    (numericLeft : TypeSet.numeric.contains left = true)
    (numericRight : TypeSet.numeric.contains right = true)
    (widened : op.widen left right = .ok result) : Broadcast left right result := by
  unfold MathOp.widen at widened
  split at widened
  · rename_i same
    subst same
    cases widened
    exact .same numericLeft
  split at widened
  · rename_i different scalar
    subst scalar
    cases widened
    exact .left (vectors_of_ne_scalar numericRight (Ne.symm different))
  split at widened
  · rename_i different _ scalar
    subst scalar
    cases widened
    exact .right (vectors_of_ne_scalar numericLeft different)
  · cases widened

theorem Broadcast.numeric {left right result : ValueType}
    (broadcast : Broadcast left right result) : TypeSet.numeric.contains result = true := by
  cases broadcast with
  | same numeric => exact numeric
  | left vector => exact numeric_of_vectors vector
  | right vector => exact numeric_of_vectors vector

structure Widening (holder : String) (scope : Scope) (left right : Code × ValueType)
    (result : ValueType) : Prop where
  typedLeft : HasType holder scope left.1 left.2
  typedRight : HasType holder scope right.1 right.2
  numericLeft : TypeSet.numeric.contains left.2 = true
  numericRight : TypeSet.numeric.contains right.2 = true
  broadcast : Broadcast left.2 right.2 result

namespace Widening

variable {left right : Code × ValueType} {result : ValueType}

theorem arithmetic (widening : Widening holder scope left right result) (operator : Arithmetic) :
    HasType holder scope (.arithmetic operator left.1 right.1) result :=
  .arithmetic widening.typedLeft widening.typedRight widening.broadcast

theorem convertLeft (widening : Widening holder scope left right result) :
    HasType holder scope (left.1.convert left.2 result) result :=
  widening.typedLeft.convert widening.numericLeft widening.broadcast.numeric

theorem convertRight (widening : Widening holder scope left right result) :
    HasType holder scope (right.1.convert right.2 result) result :=
  widening.typedRight.convert widening.numericRight widening.broadcast.numeric

theorem pair (widening : Widening holder scope left right result) {function : String}
    (known : function ∈ ["min", "max", "pow"]) :
    HasType holder scope
      (.apply function [left.1.convert left.2 result, right.1.convert right.2 result]) result :=
  .pair known widening.convertLeft widening.convertRight widening.broadcast.numeric

end Widening

section Math

variable {op : MathOp} {operands : List (Code × ValueType)} {result : ValueType}

theorem widening_of_widen {left right : Code × ValueType}
    (typed : ∀ operand ∈ [left, right], HasType holder scope operand.1 operand.2)
    (numeric : ∀ operand ∈ [left, right], TypeSet.numeric.contains operand.2 = true)
    (widened : op.widen left.2 right.2 = .ok result) : Widening holder scope left right result := by
  have last : right ∈ [left, right] := List.mem_cons_of_mem _ List.mem_cons_self
  have numericLeft := numeric left List.mem_cons_self
  have numericRight := numeric right last
  exact ⟨typed left List.mem_cons_self, typed right last, numericLeft, numericRight,
    broadcast_of_widen numericLeft numericRight widened⟩

theorem exists_widening (typed : ∀ operand ∈ operands, HasType holder scope operand.1 operand.2)
    (numeric : ∀ operand ∈ operands, TypeSet.numeric.contains operand.2 = true)
    (counted : operands.length = 2)
    (widens : ∀ left right, op.resultType [left, right] = op.widen left right)
    (combined : op.resultType (operands.map Prod.snd) = .ok result) :
    ∃ left right, operands = [left, right] ∧ Widening holder scope left right result := by
  obtain ⟨left, right, rfl⟩ := List.length_eq_two.1 counted
  have widened : op.widen left.2 right.2 = .ok result := (widens _ _).symm.trans combined
  exact ⟨left, right, rfl, widening_of_widen typed numeric widened⟩

theorem exists_single (typed : ∀ operand ∈ operands, HasType holder scope operand.1 operand.2)
    (counted : operands.length = 1) (keeps : ∀ type, op.resultType [type] = .ok type)
    (combined : op.resultType (operands.map Prod.snd) = .ok result) :
    ∃ code, operands = [(code, result)] ∧ HasType holder scope code result := by
  obtain ⟨⟨code, type⟩, rfl⟩ := List.length_eq_one_iff.1 counted
  cases (keeps type).symm.trans combined
  exact ⟨code, rfl, typed _ List.mem_cons_self⟩

/-- An operation on as many operands as it takes, of types that it takes. -/
theorem HasType.math (typed : ∀ operand ∈ operands, HasType holder scope operand.1 operand.2)
    (counted : operands.length = op.operandNames.length)
    (allowed : ∀ operand ∈ operands, op.operandTypes.contains operand.2 = true)
    (combined : op.resultType (operands.map Prod.snd) = .ok result) :
    HasType holder scope (.math op operands result) result := by
  cases op
  case add | subtract | multiply | divide =>
    obtain ⟨left, right, rfl, widening⟩ :=
      exists_widening typed allowed counted (fun _ _ => rfl) combined
    exact widening.arithmetic _
  case min | max | power =>
    obtain ⟨left, right, rfl, widening⟩ :=
      exists_widening typed allowed counted (fun _ _ => rfl) combined
    exact widening.pair (by simp)
  case lerp =>
    obtain ⟨first, second, amount, rfl⟩ := List.length_eq_three.1 counted
    have ends : [first, second] ⊆ [first, second, amount] := by simp
    simp only [List.map_cons, List.map_nil, MathOp.resultType] at combined
    split at combined
    · cases combined
    rename_i widest widened
    split at combined
    · rename_i fits
      cases combined
      have widening := widening_of_widen (fun operand member => typed operand (ends member))
        (fun operand member => allowed operand (ends member)) widened
      exact .mix widening.convertLeft widening.convertRight (typed amount (by simp))
        widening.broadcast.numeric fits.symm
    · cases combined
  case dot =>
    obtain ⟨⟨left, leftType⟩, ⟨right, rightType⟩, rfl⟩ := List.length_eq_two.1 counted
    simp only [List.map_cons, List.map_nil, MathOp.resultType] at combined
    split at combined
    · rename_i same
      subst same
      cases combined
      exact .dot (typed (left, leftType) List.mem_cons_self) (typed (right, leftType) (by simp))
        (allowed (left, leftType) List.mem_cons_self)
    · cases combined
  case normalize =>
    obtain ⟨code, rfl, hasType⟩ := exists_single typed counted (fun _ => rfl) combined
    exact .normalize hasType (allowed _ List.mem_cons_self)
  case oneMinus =>
    obtain ⟨code, rfl, hasType⟩ := exists_single typed counted (fun _ => rfl) combined
    have numeric := allowed _ List.mem_cons_self
    have broadcast : Broadcast .scalar result result := by
      by_cases scalar : result = .scalar
      · rw [scalar]
        exact .same rfl
      · exact .left (vectors_of_ne_scalar numeric scalar)
    exact .arithmetic (.float rfl) hasType broadcast
  case sin | cos | abs | saturate =>
    obtain ⟨code, rfl, hasType⟩ := exists_single typed counted (fun _ => rfl) combined
    exact .unary (by simp) hasType (allowed _ List.mem_cons_self)

end Math

end MaterialGraph.Wgsl
