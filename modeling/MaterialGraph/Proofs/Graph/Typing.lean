import MaterialGraph.Graph.Typing
import MaterialGraph.Proofs.Lists

/-!
Typing rules. A node is valid when each of its inputs is fed by a typed output or takes its
default, or is optional and left alone, at a type the slot allows, and when the operands combine.
Checking nodes in an order that has producers first follows these rules: a check fails exactly at
invalid nodes, and the table holds exactly the outputs of the valid ones.
-/

set_option autoImplicit false

namespace MaterialGraph

namespace Typing

variable {Target : Type}

/-- What the rules speak of: the type that reaches an input slot, the type that a valid node
infers for outputs that declare none, and the type of an output slot. -/
inductive Judgement where
  | input (slot : InputSlot) (type : Option ValueType)
  | node (id : NodeId) (inferred : Option ValueType)
  | output (id : NodeId) (slot : SlotId) (type : ValueType)

inductive Derivable (wired : Wired Target) : Judgement → Prop
  | bound {input : InputSlot} {binding : Binding} {type : ValueType} :
      input.binding = some binding → Derivable wired (.output binding.node binding.output type) →
      input.allowed.contains type = true → Derivable wired (.input input (some type))
  | default {input : InputSlot} {value : Literal} :
      input.binding = none → input.default = some value →
      input.allowed.contains value.type = true → Derivable wired (.input input (some value.type))
  | unfed {input : InputSlot} :
      input.binding = none → input.default = none → input.required = false →
      Derivable wired (.input input none)
  | node {id : NodeId} {node : Node Target} {operands : List (Option ValueType)}
      {inferred : Option ValueType} :
      wired.node? id = some node → node.inputs.length = operands.length →
      (∀ input type, (input, type) ∈ node.inputs.zip operands →
        Derivable wired (.input input type)) →
      inferredType node.kind operands = .ok inferred → Derivable wired (.node id inferred)
  | output {id : NodeId} {node : Node Target} {inferred : Option ValueType} {output : OutputSlot}
      {type : ValueType} :
      Derivable wired (.node id inferred) → wired.node? id = some node → output ∈ node.outputs →
      output.type.or inferred = some type → Derivable wired (.output id output.id type)

def Valid (wired : Wired Target) (id : NodeId) : Prop :=
  ∃ inferred, Derivable wired (.node id inferred)

abbrev Operands (wired : Wired Target) : List InputSlot → List (Option ValueType) → Prop :=
  List.Forall₂ fun input type => Derivable wired (.input input type)

theorem derivable_node_iff {wired : Wired Target} {id : NodeId} {node : Node Target}
    (found : wired.node? id = some node) {inferred : Option ValueType} :
    Derivable wired (.node id inferred) ↔
      ∃ operands, Operands wired node.inputs operands ∧
        inferredType node.kind operands = .ok inferred := by
  constructor
  · intro derived
    cases derived with
    | node foundToo length typed combined =>
        cases found.symm.trans foundToo
        exact ⟨_, List.forall₂_iff_zip.2 ⟨length, typed _ _⟩, combined⟩
  · rintro ⟨operands, typed, combined⟩
    obtain ⟨length, pairs⟩ := List.forall₂_iff_zip.1 typed
    exact .node found length (fun _ _ => pairs) combined

theorem inferredType_math {op : MathOp} {operands : List (Option ValueType)}
    {inferred : Option ValueType} :
    inferredType (.math op : Kind Target) operands = .ok inferred ↔
      ∃ type, op.resultType (operands.filterMap id) = .ok type ∧ inferred = some type := by
  simp only [inferredType]
  cases op.resultType (operands.filterMap id) with
  | error fault => simp
  | ok type => simp [eq_comm]

theorem exists_type_of_required {wired : Wired Target} {input : InputSlot}
    {type : Option ValueType} (derived : Derivable wired (.input input type))
    (required : input.required = true) : ∃ found, type = some found := by
  cases derived with
  | bound _ _ _ => exact ⟨_, rfl⟩
  | default _ _ _ => exact ⟨_, rfl⟩
  | unfed _ _ optional => cases optional.symm.trans required

theorem Derivable.valid_of_output {wired : Wired Target} {id : NodeId} {slot : SlotId}
    {type : ValueType} (derived : Derivable wired (.output id slot type)) : Valid wired id := by
  cases derived with
  | output node _ _ _ => exact ⟨_, node⟩

theorem Valid.exists_input {wired : Wired Target} {id : NodeId} (valid : Valid wired id)
    {node : Node Target} (found : wired.node? id = some node) {input : InputSlot}
    (member : input ∈ node.inputs) : ∃ type, Derivable wired (.input input type) := by
  rcases valid with ⟨inferred, derived⟩
  rcases (derivable_node_iff found).1 derived with ⟨operands, typed, _⟩
  rcases exists_related_of_mem typed member with ⟨type, _, fed⟩
  exact ⟨type, fed⟩

theorem Derivable.allowed {wired : Wired Target} {input : InputSlot} {type : ValueType}
    (derived : Derivable wired (.input input (some type))) :
    input.allowed.contains type = true := by
  cases derived with
  | bound _ _ allowed => exact allowed
  | default _ _ allowed => exact allowed

/-- What feeds a valid node is valid. -/
theorem Valid.of_binding {wired : Wired Target} {id : NodeId} (valid : Valid wired id)
    {node : Node Target} (found : wired.node? id = some node) {input : InputSlot}
    (member : input ∈ node.inputs) {binding : Binding} (bound : input.binding = some binding) :
    Valid wired binding.node := by
  rcases valid.exists_input found member with ⟨type, fed⟩
  cases fed with
  | bound boundToo derived _ =>
      cases bound.symm.trans boundToo
      exact derived.valid_of_output
  | default unbound _ _ => cases bound.symm.trans unbound
  | unfed unbound _ _ => cases bound.symm.trans unbound

def OutputsDistinct (wired : Wired Target) : Prop :=
  ∀ id node, wired.node? id = some node → (node.outputs.map OutputSlot.id).Nodup

def Judgement.Agree : Judgement → Judgement → Prop
  | input slot type, input otherSlot otherType => slot = otherSlot → type = otherType
  | node id inferred, node otherId otherInferred => id = otherId → inferred = otherInferred
  | output id slot type, output otherId otherSlot otherType =>
      id = otherId → slot = otherSlot → type = otherType
  | _, _ => True

theorem operands_unique {wired : Wired Target} {inputs : List InputSlot}
    {left right : List (Option ValueType)}
    (unique : List.Forall₂
      (fun input type => ∀ other, Derivable wired (.input input other) → type = other) inputs left)
    (typed : Operands wired inputs right) : left = right := by
  induction unique generalizing right with
  | nil =>
      cases typed
      rfl
  | cons first rest ih =>
      cases typed with
      | cons here later => rw [first _ here, ih later]

theorem Derivable.agree {wired : Wired Target} (distinct : OutputsDistinct wired)
    {left : Judgement} (derived : Derivable wired left) :
    ∀ {right : Judgement}, Derivable wired right → left.Agree right := by
  induction derived with
  | bound bound output allowed ih =>
      intro right other
      cases other with
      | bound boundToo outputToo _ =>
          rintro rfl
          cases bound.symm.trans boundToo
          exact congrArg some (ih outputToo rfl rfl)
      | default unbound _ _ =>
          rintro rfl
          cases bound.symm.trans unbound
      | unfed unbound _ _ =>
          rintro rfl
          cases bound.symm.trans unbound
      | _ => trivial
  | default unbound given allowed =>
      intro right other
      cases other with
      | bound bound _ _ =>
          rintro rfl
          cases unbound.symm.trans bound
      | default _ givenToo _ =>
          rintro rfl
          cases given.symm.trans givenToo
          rfl
      | unfed _ missing _ =>
          rintro rfl
          cases given.symm.trans missing
      | _ => trivial
  | unfed unbound missing optional =>
      intro right other
      cases other with
      | bound bound _ _ =>
          rintro rfl
          cases unbound.symm.trans bound
      | default _ given _ =>
          rintro rfl
          cases missing.symm.trans given
      | unfed _ _ _ =>
          intro _
          rfl
      | _ => trivial
  | node found length typed combined ih =>
      intro right other
      cases other with
      | node foundToo lengthToo typedToo combinedToo =>
          rintro rfl
          cases found.symm.trans foundToo
          have same := operands_unique
            (List.forall₂_iff_zip.2 ⟨length, fun pair type derived => ih _ _ pair derived rfl⟩)
            (List.forall₂_iff_zip.2 ⟨lengthToo, typedToo _ _⟩)
          subst same
          exact Except.ok.inj (combined.symm.trans combinedToo)
      | _ => trivial
  | output node found member typed ih =>
      intro right other
      cases other with
      | output nodeToo foundToo memberToo typedToo =>
          rintro rfl sameSlot
          cases found.symm.trans foundToo
          cases ih nodeToo rfl
          have first := find?_key_of_mem (distinct _ _ found) member
          have second := find?_key_of_mem (distinct _ _ found) memberToo
          rw [sameSlot] at first
          cases first.symm.trans second
          exact Option.some.inj (typed.symm.trans typedToo)
      | _ => trivial

def Recorded (wired : Wired Target) (checked : List NodeId) (table : TypeTable) : Prop :=
  ∀ id slot type, table.find? (id, slot) = some type ↔
    id ∈ checked ∧ Derivable wired (.output id slot type)

theorem recorded_nil (wired : Wired Target) : Recorded wired [] [] := by
  intro id slot type
  simp

theorem inputType_eq_ok_iff {wired : Wired Target} {checked : List NodeId} {table : TypeTable}
    (recorded : Recorded wired checked table) {input : InputSlot}
    (fed : ∀ binding, input.binding = some binding → binding.node ∈ checked)
    (type : Option ValueType) :
    inputType table input = .ok type ↔ Derivable wired (.input input type) := by
  have lookup : ∀ binding, input.binding = some binding → ∀ found,
      table.find? (binding.node, binding.output) = some found ↔
        Derivable wired (.output binding.node binding.output found) := by
    intro binding bound found
    rw [recorded binding.node binding.output found]
    exact and_iff_right (fed binding bound)
  constructor
  · intro typed
    unfold inputType at typed
    split at typed
    · cases typed
    · rename_i arrives
      cases typed
      unfold arrivingType at arrives
      split at arrives
      · split at arrives <;> cases arrives
      · rename_i unbound
        split at arrives
        · cases arrives
        · rename_i missing
          split at arrives
          · cases arrives
          · rename_i optional
            exact .unfed unbound missing (by simpa using optional)
    · rename_i found arrives
      split at typed
      · rename_i allowed
        cases typed
        unfold arrivingType at arrives
        split at arrives
        · rename_i binding bound
          split at arrives
          · rename_i type recordedType
            cases arrives
            exact .bound bound ((lookup binding bound _).1 recordedType) allowed
          · cases arrives
        · rename_i unbound
          split at arrives
          · rename_i value given
            cases arrives
            exact .default unbound given allowed
          · split at arrives <;> cases arrives
      · cases typed
  · intro derived
    cases derived with
    | bound bound output allowed =>
        simp [inputType, arrivingType, bound, (lookup _ bound _).2 output, allowed]
    | default unbound given allowed => simp [inputType, arrivingType, unbound, given, allowed]
    | unfed unbound missing optional =>
        simp [inputType, arrivingType, unbound, missing, optional]

theorem inputTypes_eq_ok_iff {wired : Wired Target} {checked : List NodeId} {table : TypeTable}
    (recorded : Recorded wired checked table) {inputs : List InputSlot}
    (fed : ∀ input ∈ inputs, ∀ binding, input.binding = some binding → binding.node ∈ checked)
    (types : List (Option ValueType)) :
    inputTypes table inputs = .ok types ↔ Operands wired inputs types := by
  induction inputs generalizing types with
  | nil =>
      simp only [inputTypes, List.forall₂_nil_left_iff, Except.ok.injEq]
      exact eq_comm
  | cons input rest ih =>
      have here := inputType_eq_ok_iff recorded (fed input List.mem_cons_self)
      have later := ih fun slot member => fed slot (List.mem_cons_of_mem _ member)
      have split : Operands wired (input :: rest) types ↔ ∃ type others,
          Derivable wired (.input input type) ∧ Operands wired rest others ∧
            types = type :: others := List.forall₂_cons_left_iff
      rw [split]
      simp only [← here, ← later, inputTypes]
      cases inputType table input with
      | error fault => simp
      | ok type =>
          cases inputTypes table rest with
          | error fault => simp
          | ok others =>
              constructor
              · intro typed
                cases typed
                exact ⟨type, others, rfl, rfl, rfl⟩
              · rintro ⟨_, _, same, sameRest, rfl⟩
                cases same
                cases sameRest
                rfl

theorem find?_record_of_ne {id other : NodeId} (different : id ≠ other)
    (inferred : Option ValueType) (outputs : List OutputSlot) (table : TypeTable) (slot : SlotId) :
    (record id inferred outputs table).find? (other, slot) = table.find? (other, slot) := by
  unfold record
  induction outputs generalizing table with
  | nil => rfl
  | cons output rest ih =>
      rw [List.foldl_cons, ih]
      split
      · apply Table.find?_insert_of_ne
        intro same
        exact different (congrArg Prod.fst same)
      · rfl

theorem find?_record {id : NodeId} {inferred : Option ValueType} {outputs : List OutputSlot}
    (distinct : (outputs.map OutputSlot.id).Nodup) {table : TypeTable}
    (fresh : ∀ output ∈ outputs, table.find? (id, output.id) = none) {slot : SlotId}
    {type : ValueType} :
    (record id inferred outputs table).find? (id, slot) = some type ↔
      table.find? (id, slot) = some type ∨
        ∃ output ∈ outputs, output.id = slot ∧ output.type.or inferred = some type := by
  induction outputs generalizing table with
  | nil => simp [record]
  | cons output rest ih =>
      obtain ⟨absent, restDistinct⟩ := List.nodup_cons.1 distinct
      have freshHere := fresh output List.mem_cons_self
      unfold record at ih ⊢
      rw [List.foldl_cons]
      cases typed : output.type.or inferred with
      | none =>
          rw [ih restDistinct fun other member => fresh other (List.mem_cons_of_mem _ member)]
          simp only [List.mem_cons, exists_eq_or_imp, typed, reduceCtorEq, and_false, false_or]
      | some found =>
          have restFresh : ∀ other ∈ rest,
              (table.insert (id, output.id) found).find? (id, other.id) = none := by
            intro other member
            rw [Table.find?_insert_of_ne]
            · exact fresh other (List.mem_cons_of_mem _ member)
            · intro same
              exact absent (List.mem_map.2 ⟨other, member, (congrArg Prod.snd same).symm⟩)
          rw [ih restDistinct restFresh]
          by_cases here : output.id = slot
          · subst here
            have notLater : ¬∃ other ∈ rest, other.id = output.id ∧
                other.type.or inferred = some type := by
              rintro ⟨other, member, same, _⟩
              exact absent (List.mem_map.2 ⟨other, member, same⟩)
            simp only [Table.find?_insert_self, freshHere, List.mem_cons, exists_eq_or_imp, typed,
              notLater, reduceCtorEq, true_and, false_or, or_false]
          · rw [Table.find?_insert_of_ne fun same => here (congrArg Prod.snd same)]
            simp only [List.mem_cons, exists_eq_or_imp, here, false_and, false_or]

theorem checkNode_eq_ok_iff {wired : Wired Target} {checked : List NodeId} {table : TypeTable}
    (recorded : Recorded wired checked table) {node : Node Target}
    (fed : ∀ input ∈ node.inputs, ∀ binding, input.binding = some binding →
      binding.node ∈ checked) (next : TypeTable) :
    checkNode table node = .ok next ↔
      ∃ operands inferred, Operands wired node.inputs operands ∧
        inferredType node.kind operands = .ok inferred ∧
        next = record node.id inferred node.outputs table := by
  have typed := inputTypes_eq_ok_iff recorded fed
  simp only [← typed, checkNode]
  cases inputTypes table node.inputs with
  | error fault => simp
  | ok operands =>
      cases combined : inferredType node.kind operands with
      | error fault => simp [combined]
      | ok inferred => simp [combined, eq_comm]

/-- A node whose producers were checked: the check says whether it is valid, and afterwards the
table holds the outputs of one node more. -/
theorem check_step {wired : Wired Target} (distinct : OutputsDistinct wired)
    {checked : List NodeId} {table : TypeTable} (recorded : Recorded wired checked table)
    {id : NodeId} {node : Node Target} (found : wired.node? id = some node) (named : node.id = id)
    (fresh : id ∉ checked)
    (fed : ∀ input ∈ node.inputs, ∀ binding, input.binding = some binding →
      binding.node ∈ checked) :
    (∀ next, check wired table id = .ok next →
      Valid wired id ∧ Recorded wired (checked ++ [id]) next) ∧
    (∀ fault, check wired table id = .error fault →
      ¬Valid wired id ∧ Recorded wired (checked ++ [id]) table) := by
  have unfolded : check wired table id = checkNode table node := by simp [check, found]
  have passes := checkNode_eq_ok_iff recorded fed
  constructor
  · intro next passed
    rw [unfolded, passes] at passed
    obtain ⟨operands, inferred, typed, combined, rfl⟩ := passed
    have valid := (derivable_node_iff found).2 ⟨operands, typed, combined⟩
    refine ⟨⟨inferred, valid⟩, ?_⟩
    intro other slot type
    rw [named]
    by_cases same : id = other
    · subst same
      have absent : ∀ slot, table.find? (id, slot) = none := by
        intro slot
        cases old : table.find? (id, slot) with
        | none => rfl
        | some type => exact absurd ((recorded id slot type).1 old).1 fresh
      rw [find?_record (distinct id node found) fun output _ => absent output.id]
      simp only [absent, reduceCtorEq, false_or, List.mem_append, List.mem_singleton, or_true,
        true_and]
      constructor
      · rintro ⟨output, member, rfl, typed⟩
        exact .output valid found member typed
      · intro derived
        cases derived with
        | output validToo foundToo member typed =>
            cases found.symm.trans foundToo
            cases valid.agree distinct validToo rfl
            exact ⟨_, member, rfl, typed⟩
    · rw [find?_record_of_ne same, recorded]
      have other : ¬other = id := fun equal => same equal.symm
      simp [other]
  · intro fault failed
    have invalid : ¬Valid wired id := by
      rintro ⟨inferred, valid⟩
      obtain ⟨operands, typed, combined⟩ := (derivable_node_iff found).1 valid
      have passed := (passes _).2 ⟨operands, inferred, typed, combined, rfl⟩
      rw [unfolded, passed] at failed
      cases failed
    refine ⟨invalid, ?_⟩
    intro other slot type
    rw [recorded]
    constructor
    · rintro ⟨member, derived⟩
      exact ⟨List.mem_append_left _ member, derived⟩
    · rintro ⟨member, derived⟩
      rcases List.mem_append.1 member with old | new
      · exact ⟨old, derived⟩
      · obtain rfl : other = id := by simpa using new
        exact absurd derived.valid_of_output invalid

def ProducersFirst (wired : Wired Target) (order : List NodeId) : Prop :=
  ∀ before id after, order = before ++ id :: after → ∀ node, wired.node? id = some node →
    ∀ input ∈ node.inputs, ∀ binding, input.binding = some binding → binding.node ∈ before

/-- Checking to the end, or up to the first fault, finds no fault exactly if all nodes are valid,
and then the table holds all their outputs. -/
theorem checkAll_run {wired : Wired Target} (distinct : OutputsDistinct wired) (stopAtFirst : Bool)
    {checked rest : List NodeId} {table : TypeTable} (recorded : Recorded wired checked table)
    (once : (checked ++ rest).Nodup) (ordered : ProducersFirst wired (checked ++ rest))
    (present : ∀ id ∈ rest, ∃ node, wired.node? id = some node ∧ node.id = id) :
    ((checkAll wired stopAtFirst rest table).2 = [] ↔ ∀ id ∈ rest, Valid wired id) ∧
    ((checkAll wired stopAtFirst rest table).2 = [] →
      Recorded wired (checked ++ rest) (checkAll wired stopAtFirst rest table).1) := by
  induction rest generalizing checked table with
  | nil => simpa [checkAll] using recorded
  | cons id rest ih =>
      obtain ⟨node, found, named⟩ := present id List.mem_cons_self
      have fresh : id ∉ checked := by
        intro old
        exact (List.nodup_append.1 once).2.2 id old id List.mem_cons_self rfl
      obtain ⟨passes, fails⟩ := check_step distinct recorded found named fresh
        fun input member binding bound =>
          ordered checked id rest rfl node found input member binding bound
      unfold checkAll
      cases outcome : check wired table id with
      | error fault =>
          have invalid := (fails fault outcome).1
          cases stopAtFirst <;> simp [invalid]
      | ok next =>
          obtain ⟨valid, recordedNext⟩ := passes next outcome
          have later := ih recordedNext (by simpa using once) (by simpa using ordered)
            fun other member => present other (List.mem_cons_of_mem _ member)
          simpa [valid] using later

theorem checkAll_eq_nil_iff {wired : Wired Target} (distinct : OutputsDistinct wired)
    (stopAtFirst : Bool) {order : List NodeId} (once : order.Nodup)
    (ordered : ProducersFirst wired order)
    (present : ∀ id ∈ order, ∃ node, wired.node? id = some node ∧ node.id = id) :
    (checkAll wired stopAtFirst order []).2 = [] ↔ ∀ id ∈ order, Valid wired id :=
  (checkAll_run distinct stopAtFirst (recorded_nil wired) once ordered present).1

theorem recorded_checkAll {wired : Wired Target} (distinct : OutputsDistinct wired)
    {stopAtFirst : Bool} {order : List NodeId} (once : order.Nodup)
    (ordered : ProducersFirst wired order)
    (present : ∀ id ∈ order, ∃ node, wired.node? id = some node ∧ node.id = id)
    (clean : (checkAll wired stopAtFirst order []).2 = []) :
    Recorded wired order (checkAll wired stopAtFirst order []).1 :=
  (checkAll_run distinct stopAtFirst (recorded_nil wired) once ordered present).2 clean

end Typing

end MaterialGraph
