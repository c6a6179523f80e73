import MaterialGraph.Wgsl.Code

/-!
Locals in shader code: which of them occur, and code with an expression in the place of each.
Conversions, selections and math operations put their operands together without looking into them:
they keep every property that code takes from its parts.
-/

set_option autoImplicit false

namespace MaterialGraph.Wgsl.Code

mutual

@[simp] def locals : Code → List String
  | verbatim _ => []
  | float _ => []
  | uniform _ _ => []
  | texture _ => []
  | shared name => [name]
  | sample source coordinate none => locals source ++ locals coordinate
  | sample source coordinate (some level) => locals source ++ locals coordinate ++ locals level
  | select source _ => locals source
  | construct _ parts => localsOfAll parts
  | arithmetic _ left right => locals left ++ locals right
  | apply _ arguments => localsOfAll arguments
  | run parts => localsOfAll parts

def localsOfAll : List Code → List String
  | [] => []
  | code :: rest => locals code ++ localsOfAll rest

end

mutual

@[simp] def expand (bound : String → Code) : Code → Code
  | verbatim text => verbatim text
  | float value => float value
  | uniform block name => uniform block name
  | texture name => texture name
  | shared name => bound name
  | sample source coordinate none => sample (expand bound source) (expand bound coordinate) none
  | sample source coordinate (some level) =>
      sample (expand bound source) (expand bound coordinate) (some (expand bound level))
  | select source lanes => select (expand bound source) lanes
  | construct type parts => construct type (expandAll bound parts)
  | arithmetic operator left right =>
      arithmetic operator (expand bound left) (expand bound right)
  | apply function arguments => apply function (expandAll bound arguments)
  | run parts => run (expandAll bound parts)

def expandAll (bound : String → Code) : List Code → List Code
  | [] => []
  | code :: rest => expand bound code :: expandAll bound rest

end

@[simp] theorem localsOfAll_eq (parts : List Code) : localsOfAll parts = parts.flatMap locals := by
  induction parts with
  | nil => rfl
  | cons code rest induction => rw [localsOfAll, induction, List.flatMap_cons]

@[simp] theorem expandAll_eq (bound : String → Code) (parts : List Code) :
    expandAll bound parts = parts.map (expand bound) := by
  induction parts with
  | nil => rfl
  | cons code rest induction => rw [expandAll, induction, List.map_cons]

section Expand

variable (bound : String → Code)

@[simp] theorem expand_sample (source coordinate : Code) (level : Option Code) :
    (sample source coordinate level).expand bound =
      sample (source.expand bound) (coordinate.expand bound) (level.map (expand bound)) := by
  cases level <;> simp

@[simp] theorem expand_literal (value : Literal) :
    (literal value).expand bound = literal value := by
  cases value <;> simp [literal, Literal.lanes]

theorem expand_component (source : Code) (type : ValueType) (part : Component) :
    (component source type part).expand bound = component (source.expand bound) type part := by
  cases part with
  | lane lane =>
      simp only [component]
      split
      · rfl
      · simp
  | zero => simp [component]
  | one => simp [component]

theorem expand_assemble (parts : List Code) :
    (assemble parts).expand bound = assemble (parts.map (expand bound)) := by
  unfold assemble
  rw [List.length_map]
  split <;> simp

@[simp] theorem expand_swizzle (source : Code) (type : ValueType) (components : List Component) :
    (swizzle source type components).expand bound =
      swizzle (source.expand bound) type components := by
  unfold swizzle
  split
  · split <;> simp
  · split
    · simp
    · split
      · exact expand_component bound source type _
      · rw [expand_assemble, List.map_map]
        congr 1
        apply List.map_congr_left
        intro part _
        exact expand_component bound source type part

@[simp] theorem expand_convert (code : Code) (source target : ValueType) :
    (convert code source target).expand bound = convert (code.expand bound) source target := by
  unfold convert
  split
  · rfl
  · exact expand_swizzle bound code source _

theorem expand_raw (operands : List (Code × ValueType)) (position : Nat) :
    (raw operands position).expand bound =
      raw (operands.map fun operand => (operand.1.expand bound, operand.2)) position := by
  unfold raw
  rw [List.getElem?_map]
  cases operands[position]? <;> simp [nothing]

theorem expand_widened (operands : List (Code × ValueType)) (result : ValueType)
    (position : Nat) :
    (widened operands result position).expand bound =
      widened (operands.map fun operand => (operand.1.expand bound, operand.2)) result
        position := by
  unfold widened
  rw [List.getElem?_map]
  cases operands[position]? <;> simp [nothing]

@[simp] theorem expand_math (op : MathOp) (operands : List (Code × ValueType))
    (result : ValueType) :
    (math op operands result).expand bound =
      math op (operands.map fun operand => (operand.1.expand bound, operand.2)) result := by
  cases op <;> simp [math, expand_raw, expand_widened]

end Expand

@[simp] theorem locals_sample (source coordinate : Code) (level : Option Code) :
    (sample source coordinate level).locals =
      source.locals ++ coordinate.locals ++ level.toList.flatMap locals := by
  cases level <;> simp

/-- A property that numbers have, and any other code that is made of parts if these have it. -/
structure Compositional (holds : Code → Prop) : Prop where
  float : ∀ value, holds (.float value)
  sample : ∀ {source coordinate level}, holds source → holds coordinate →
    (∀ part ∈ level, holds part) → holds (.sample source coordinate level)
  select : ∀ {source} lanes, holds source → holds (.select source lanes)
  construct : ∀ type {parts}, (∀ part ∈ parts, holds part) → holds (.construct type parts)
  arithmetic : ∀ operator {left right}, holds left → holds right →
    holds (.arithmetic operator left right)
  apply : ∀ function {arguments}, (∀ part ∈ arguments, holds part) →
    holds (.apply function arguments)
  run : ∀ {parts}, (∀ part ∈ parts, holds part) → holds (.run parts)

namespace Compositional

variable {holds : Code → Prop}

theorem nothing (rule : Compositional holds) : holds nothing := rule.run (by simp)

theorem literal (rule : Compositional holds) (value : Literal) : holds (literal value) := by
  cases value with
  | scalar x => exact rule.float x
  | _ =>
      apply rule.construct
      intro part member
      obtain ⟨lane, _, rfl⟩ := List.mem_map.1 member
      exact rule.float lane

theorem component (rule : Compositional holds) {source : Code} (first : holds source)
    (type : ValueType) (part : Component) : holds (component source type part) := by
  cases part with
  | lane lane =>
      simp only [Code.component]
      split
      · exact first
      · exact rule.select _ first
  | zero => exact rule.float _
  | one => exact rule.float _

theorem assemble (rule : Compositional holds) {parts : List Code}
    (each : ∀ part ∈ parts, holds part) : holds (assemble parts) := by
  unfold Code.assemble
  split
  · exact rule.run each
  · exact rule.run each
  · exact rule.construct _ each

theorem swizzle (rule : Compositional holds) {source : Code} (first : holds source)
    (type : ValueType) (components : List Component) :
    holds (swizzle source type components) := by
  have single : ∀ part ∈ [source], holds part := by simpa using first
  unfold Code.swizzle
  split
  · split
    · exact first
    · exact first
    · exact rule.construct _ single
  · split
    · exact rule.select _ first
    · split
      · exact rule.component first type _
      · apply rule.assemble
        intro part member
        obtain ⟨chosen, _, rfl⟩ := List.mem_map.1 member
        exact rule.component first type chosen

theorem convert (rule : Compositional holds) {code : Code} (first : holds code)
    (source target : ValueType) : holds (convert code source target) := by
  unfold Code.convert
  split
  · exact first
  · exact rule.swizzle first source _

variable {operands : List (Code × ValueType)}

theorem raw (rule : Compositional holds) (each : ∀ operand ∈ operands, holds operand.1)
    (position : Nat) : holds (raw operands position) := by
  unfold Code.raw
  split
  · rename_i code type found
    exact each _ (List.mem_of_getElem? found)
  · exact rule.nothing

theorem widened (rule : Compositional holds) (each : ∀ operand ∈ operands, holds operand.1)
    (result : ValueType) (position : Nat) : holds (widened operands result position) := by
  unfold Code.widened
  split
  · rename_i code type found
    exact rule.convert (each _ (List.mem_of_getElem? found)) type result
  · exact rule.nothing

theorem math (rule : Compositional holds) (op : MathOp)
    (each : ∀ operand ∈ operands, holds operand.1) (result : ValueType) :
    holds (math op operands result) := by
  have raws := rule.raw each
  have wides := rule.widened each result
  have numbers := rule.float
  cases op <;> first
    | exact rule.arithmetic _ (by simp [raws, numbers]) (raws _)
    | exact rule.apply _ (by simp [raws, wides])

end Compositional

theorem compositional_locals (allowed : String → Prop) :
    Compositional fun code => ∀ name ∈ code.locals, allowed name where
  float := by simp
  sample := by
    intro source coordinate level first second third name member
    simp only [locals_sample, List.mem_append, List.mem_flatMap, Option.mem_toList] at member
    rcases member with (inside | inside) | ⟨part, given, inside⟩
    · exact first name inside
    · exact second name inside
    · exact third part given name inside
  select := by simp
  construct := by
    simp only [locals, localsOfAll_eq, List.mem_flatMap]
    exact fun _ _ each name ⟨part, listed, inside⟩ => each part listed name inside
  arithmetic := by
    simp only [locals, List.mem_append]
    exact fun _ _ _ first second name inside => inside.elim (first name) (second name)
  apply := by
    simp only [locals, localsOfAll_eq, List.mem_flatMap]
    exact fun _ _ each name ⟨part, listed, inside⟩ => each part listed name inside
  run := by
    simp only [locals, localsOfAll_eq, List.mem_flatMap]
    exact fun each name ⟨part, listed, inside⟩ => each part listed name inside

end MaterialGraph.Wgsl.Code
