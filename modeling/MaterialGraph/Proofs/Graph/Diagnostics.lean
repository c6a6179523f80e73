import MaterialGraph.Proofs.Callable.Body

/-!
What a check reports. A node that the rules of typing reject has one fault: that of its first input
slot that they reject, or that its operands do not combine. Checking nodes to the end, producers
first, reports exactly the rejected ones, in order, and records exactly the outputs of the others;
so the order does not matter, and a type is undetermined only behind a reported producer.
-/

set_option autoImplicit false

namespace MaterialGraph

namespace Typing

variable {Target : Type}

inductive InputFault (wired : Wired Target) (input : InputSlot) : TypeFault → Prop
  | undetermined {binding : Binding} :
      input.binding = some binding →
      (∀ type, ¬Derivable wired (.output binding.node binding.output type)) →
      InputFault wired input (.undeterminedType input.name)
  | missing :
      input.binding = none → input.default = none → input.required = true →
      InputFault wired input (.missingArgument input.name)
  | bound {binding : Binding} {type : ValueType} :
      input.binding = some binding → Derivable wired (.output binding.node binding.output type) →
      input.allowed.contains type = false →
      InputFault wired input (.invalidType input.name type input.allowed)
  | default {value : Literal} :
      input.binding = none → input.default = some value →
      input.allowed.contains value.type = false →
      InputFault wired input (.invalidType input.name value.type input.allowed)

inductive FirstFault (wired : Wired Target) : List InputSlot → TypeFault → Prop
  | here {input : InputSlot} {rest : List InputSlot} {fault : TypeFault} :
      InputFault wired input fault → FirstFault wired (input :: rest) fault
  | later {input : InputSlot} {type : Option ValueType} {rest : List InputSlot}
      {fault : TypeFault} :
      Derivable wired (.input input type) → FirstFault wired rest fault →
      FirstFault wired (input :: rest) fault

inductive Faulty (wired : Wired Target) (id : NodeId) : TypeFault → Prop
  | input {node : Node Target} {fault : TypeFault} :
      wired.node? id = some node → FirstFault wired node.inputs fault → Faulty wired id fault
  | operands {node : Node Target} {operands : List (Option ValueType)} {fault : TypeFault} :
      wired.node? id = some node → Operands wired node.inputs operands →
      inferredType node.kind operands = .error fault → Faulty wired id fault

section Recorded

variable {wired : Wired Target} {checked : List NodeId} {table : TypeTable}

theorem inputType_eq_error_iff (recorded : Recorded wired checked table) {input : InputSlot}
    (fed : ∀ binding, input.binding = some binding → binding.node ∈ checked) (fault : TypeFault) :
    inputType table input = .error fault ↔ InputFault wired input fault := by
  have lookup : ∀ binding, input.binding = some binding → ∀ type,
      Derivable wired (.output binding.node binding.output type) ↔
        table.find? (binding.node, binding.output) = some type := by
    intro binding bound type
    rw [recorded binding.node binding.output type]
    exact (and_iff_right (fed binding bound)).symm
  constructor
  · intro failed
    cases bound : input.binding with
    | some binding =>
        cases found : table.find? (binding.node, binding.output) with
        | none =>
            simp only [inputType, arrivingType, bound, found, Except.error.injEq] at failed
            subst failed
            refine .undetermined bound fun type derived => ?_
            cases found.symm.trans ((lookup binding bound type).1 derived)
        | some type =>
            cases allowed : input.allowed.contains type with
            | true => simp [inputType, arrivingType, bound, found, allowed] at failed
            | false =>
                simp only [inputType, arrivingType, bound, found, allowed, Bool.false_eq_true,
                  if_false, Except.error.injEq] at failed
                subst failed
                exact .bound bound ((lookup binding bound type).2 found) allowed
    | none =>
        cases given : input.default with
        | none =>
            cases required : input.required with
            | false => simp [inputType, arrivingType, bound, given, required] at failed
            | true =>
                simp only [inputType, arrivingType, bound, given, required, if_true,
                  Except.error.injEq] at failed
                subst failed
                exact .missing bound given required
        | some value =>
            cases allowed : input.allowed.contains value.type with
            | true => simp [inputType, arrivingType, bound, given, allowed] at failed
            | false =>
                simp only [inputType, arrivingType, bound, given, allowed, Bool.false_eq_true,
                  if_false, Except.error.injEq] at failed
                subst failed
                exact .default bound given allowed
  · intro fault
    cases fault with
    | @undetermined binding bound underivable =>
        have absent : table.find? (binding.node, binding.output) = none := by
          cases found : table.find? (binding.node, binding.output) with
          | none => rfl
          | some type => exact absurd ((lookup binding bound type).2 found) (underivable type)
        simp only [inputType, arrivingType, bound, absent]
    | missing unbound absent required =>
        simp only [inputType, arrivingType, unbound, absent, required, if_true]
    | @bound binding type bound derived refused =>
        simp [inputType, arrivingType, bound, (lookup binding bound type).1 derived, refused]
    | default unbound given refused =>
        simp [inputType, arrivingType, unbound, given, refused]

theorem inputTypes_eq_error_iff (recorded : Recorded wired checked table) {inputs : List InputSlot}
    (fed : ∀ input ∈ inputs, ∀ binding, input.binding = some binding → binding.node ∈ checked)
    (fault : TypeFault) :
    inputTypes table inputs = .error fault ↔ FirstFault wired inputs fault := by
  induction inputs with
  | nil =>
      constructor
      · intro failed
        cases failed
      · intro first
        cases first
  | cons input rest ih =>
      have accepted := inputType_eq_ok_iff recorded (fed input List.mem_cons_self)
      have rejected := inputType_eq_error_iff recorded (fed input List.mem_cons_self)
      have later := ih fun slot member => fed slot (List.mem_cons_of_mem _ member)
      constructor
      · intro failed
        unfold inputTypes at failed
        split at failed
        · rename_i outcome
          cases failed
          exact .here ((rejected _).1 outcome)
        · rename_i type outcome
          split at failed
          · rename_i restFailed
            cases failed
            exact .later ((accepted _).1 outcome) (later.1 restFailed)
          · cases failed
      · intro first
        cases first with
        | here faulty => simp only [inputTypes, (rejected _).2 faulty]
        | later derived first =>
            simp only [inputTypes, (accepted _).2 derived, later.2 first]

/-- A check of a node whose producers were checked fails with the fault that the rules name. -/
theorem check_eq_error_iff (recorded : Recorded wired checked table) {id : NodeId}
    {node : Node Target} (found : wired.node? id = some node)
    (fed : ∀ input ∈ node.inputs, ∀ binding, input.binding = some binding →
      binding.node ∈ checked) (fault : TypeFault) :
    check wired table id = .error fault ↔ Faulty wired id fault := by
  have accepted := inputTypes_eq_ok_iff recorded fed
  have rejected := inputTypes_eq_error_iff recorded fed
  have unfolded : check wired table id = checkNode table node := by simp only [check, found]
  rw [unfolded]
  constructor
  · intro failed
    unfold checkNode at failed
    split at failed
    · rename_i outcome
      cases failed
      exact .input found ((rejected _).1 outcome)
    · rename_i operands outcome
      split at failed
      · rename_i uncombined
        cases failed
        exact .operands found ((accepted _).1 outcome) uncombined
      · cases failed
  · intro faulty
    cases faulty with
    | input foundToo first =>
        cases found.symm.trans foundToo
        simp only [checkNode, (rejected _).2 first]
    | operands foundToo typed uncombined =>
        cases found.symm.trans foundToo
        simp only [checkNode, (accepted _).2 typed, uncombined]

end Recorded

/-- A list of nodes of the graph, each once and behind the nodes that feed its inputs. -/
structure Orderly (wired : Wired Target) (order : List NodeId) : Prop where
  once : order.Nodup
  known : ∀ id ∈ order, wired.graph.contains id = true
  producersFirst : ProducersFirst wired order

/-- Diagnostics of exactly the rejected nodes of a list, in its order and with their faults. -/
structure Reports (wired : Wired Target) (order : List NodeId) (diagnostics : List Diagnostic) :
    Prop where
  listed : (diagnostics.map Diagnostic.node).Sublist order
  faults : ∀ id fault, ⟨id, fault⟩ ∈ diagnostics ↔ id ∈ order ∧ Faulty wired id fault
  rejected : ∀ id, id ∈ diagnostics.map Diagnostic.node ↔ id ∈ order ∧ ¬Valid wired id

theorem Reports.nil (wired : Wired Target) : Reports wired [] [] := by
  refine ⟨List.Sublist.slnil, ?_, ?_⟩ <;> simp

theorem Reports.accept {wired : Wired Target} {id : NodeId} {rest : List NodeId}
    {diagnostics : List Diagnostic} (reports : Reports wired rest diagnostics)
    (valid : Valid wired id) (sound : ∀ fault, ¬Faulty wired id fault) :
    Reports wired (id :: rest) diagnostics where
  listed := reports.listed.cons id
  faults := by
    intro other fault
    rw [reports.faults, List.mem_cons]
    constructor
    · rintro ⟨member, faulty⟩
      exact ⟨Or.inr member, faulty⟩
    · rintro ⟨rfl | member, faulty⟩
      · exact absurd faulty (sound fault)
      · exact ⟨member, faulty⟩
  rejected := by
    intro other
    rw [reports.rejected, List.mem_cons]
    constructor
    · rintro ⟨member, invalid⟩
      exact ⟨Or.inr member, invalid⟩
    · rintro ⟨rfl | member, invalid⟩
      · exact absurd valid invalid
      · exact ⟨member, invalid⟩

theorem Reports.reject {wired : Wired Target} {id : NodeId} {fault : TypeFault}
    {rest : List NodeId} {diagnostics : List Diagnostic} (reports : Reports wired rest diagnostics)
    (invalid : ¬Valid wired id) (named : ∀ other, Faulty wired id other ↔ fault = other) :
    Reports wired (id :: rest) (⟨id, fault⟩ :: diagnostics) where
  listed := reports.listed.cons_cons id
  faults := by
    intro other found
    rw [List.mem_cons, List.mem_cons, reports.faults, Diagnostic.mk.injEq]
    constructor
    · rintro (⟨rfl, rfl⟩ | ⟨member, faulty⟩)
      · exact ⟨Or.inl rfl, (named found).2 rfl⟩
      · exact ⟨Or.inr member, faulty⟩
    · rintro ⟨rfl | member, faulty⟩
      · exact Or.inl ⟨rfl, ((named found).1 faulty).symm⟩
      · exact Or.inr ⟨member, faulty⟩
  rejected := by
    intro other
    rw [List.map_cons, List.mem_cons, List.mem_cons, reports.rejected]
    constructor
    · rintro (rfl | ⟨member, other⟩)
      · exact ⟨Or.inl rfl, invalid⟩
      · exact ⟨Or.inr member, other⟩
    · rintro ⟨rfl | member, other⟩
      · exact Or.inl rfl
      · exact Or.inr ⟨member, other⟩

/-- Checking to the end the nodes that are left, the others having been checked. -/
theorem checkAll_reports {wired : Wired Target} (distinct : OutputsDistinct wired)
    {checked rest : List NodeId} {table : TypeTable} (recorded : Recorded wired checked table)
    (orderly : Orderly wired (checked ++ rest)) :
    Reports wired rest (checkAll wired false rest table).2 ∧
      Recorded wired (checked ++ rest) (checkAll wired false rest table).1 := by
  induction rest generalizing checked table with
  | nil => exact ⟨Reports.nil wired, by simpa [checkAll] using recorded⟩
  | cons id rest ih =>
      obtain ⟨node, found⟩ := Graph.contains_iff.1 (orderly.known id (by simp))
      have fresh : id ∉ checked := fun old =>
        (List.nodup_append.1 orderly.once).2.2 id old id List.mem_cons_self rfl
      have fed : ∀ input ∈ node.inputs, ∀ binding, input.binding = some binding →
          binding.node ∈ checked := fun input member binding bound =>
        orderly.producersFirst checked id rest rfl node found input member binding bound
      have names := check_eq_error_iff recorded found fed
      obtain ⟨passes, fails⟩ :=
        check_step distinct recorded found (Graph.mem_of_node? found).2 fresh fed
      have again : checked ++ id :: rest = checked ++ [id] ++ rest := by simp
      unfold checkAll
      cases outcome : check wired table id with
      | error fault =>
          rw [outcome] at names
          obtain ⟨invalid, kept⟩ := fails fault outcome
          obtain ⟨reports, recordedAll⟩ := ih kept (again ▸ orderly)
          refine ⟨reports.reject invalid fun other => ?_, again ▸ recordedAll⟩
          rw [← names other, Except.error.injEq]
      | ok next =>
          rw [outcome] at names
          obtain ⟨valid, recordedNext⟩ := passes next outcome
          obtain ⟨reports, recordedAll⟩ := ih recordedNext (again ▸ orderly)
          refine ⟨reports.accept valid fun fault faulty => ?_, again ▸ recordedAll⟩
          cases (names fault).2 faulty

theorem Reports.nodup {wired : Wired Target} {order : List NodeId} {diagnostics : List Diagnostic}
    (reports : Reports wired order diagnostics) (orderly : Orderly wired order) :
    diagnostics.Nodup :=
  (reports.listed.nodup orderly.once).of_map

theorem Reports.reported_before {wired : Wired Target} {order : List NodeId}
    {before after : List Diagnostic} {diagnostic : Diagnostic}
    (reports : Reports wired order (before ++ diagnostic :: after)) (orderly : Orderly wired order)
    {node : Node Target} (found : wired.node? diagnostic.node = some node) {input : InputSlot}
    (member : input ∈ node.inputs) {binding : Binding} (bound : input.binding = some binding)
    (invalid : ¬Valid wired binding.node) : binding.node ∈ before.map Diagnostic.node := by
  have listed := reports.listed
  rw [List.map_append, List.map_cons] at listed
  obtain ⟨front, back, rfl, inFront, inBack⟩ := List.append_sublist_iff.1 listed
  obtain ⟨here, rest, rfl, isHere, inRest⟩ := List.cons_sublist_iff.1 inBack
  obtain ⟨near, far, rfl⟩ := List.append_of_mem isHere
  have once := orderly.once
  -- The producer stands before the node, so its diagnostic is not behind the node's.
  have earlier := orderly.producersFirst (front ++ near) diagnostic.node (far ++ rest) (by simp)
    node found input member binding bound
  have regrouped : front ++ (near ++ diagnostic.node :: far ++ rest) =
      front ++ near ++ diagnostic.node :: (far ++ rest) := by simp
  rw [regrouped] at once
  obtain ⟨_, _, apart⟩ := List.nodup_append.1 once
  have reported := (reports.rejected binding.node).2
    ⟨by rw [regrouped]; exact List.mem_append_left _ earlier, invalid⟩
  rw [List.map_append, List.map_cons, List.mem_append, List.mem_cons] at reported
  rcases reported with inside | same | behind
  · exact inside
  · exact absurd same (apart _ earlier _ List.mem_cons_self)
  · have later : binding.node ∈ diagnostic.node :: (far ++ rest) :=
      List.mem_cons_of_mem _ (List.mem_append_right _ (inRest.subset behind))
    exact absurd rfl (apart _ earlier _ later)

theorem FirstFault.exists_input {wired : Wired Target} {inputs : List InputSlot} {fault : TypeFault}
    (first : FirstFault wired inputs fault) : ∃ input ∈ inputs, InputFault wired input fault := by
  induction first with
  | here faulty => exact ⟨_, List.mem_cons_self, faulty⟩
  | later _ _ ih =>
      obtain ⟨input, member, faulty⟩ := ih
      exact ⟨input, List.mem_cons_of_mem _ member, faulty⟩

theorem widen_eq_error {op : MathOp} {left right : ValueType} {fault : TypeFault}
    (failed : op.widen left right = .error fault) : fault = .incompatible op left right := by
  unfold MathOp.widen at failed
  split_ifs at failed
  cases failed
  rfl

theorem inferredType_eq_error {kind : Kind Target} {operands : List (Option ValueType)}
    {fault : TypeFault} (failed : inferredType kind operands = .error fault) :
    ∃ op left right, fault = .incompatible op left right := by
  unfold inferredType at failed
  split at failed
  · rename_i op
    split at failed
    · rename_i uncombined
      cases failed
      unfold MathOp.resultType at uncombined
      split at uncombined
      · split at uncombined
        · cases uncombined
        · cases uncombined
          exact ⟨_, _, _, rfl⟩
      · split at uncombined
        · rename_i unequal
          cases uncombined
          exact ⟨_, _, _, widen_eq_error unequal⟩
        · split at uncombined
          · cases uncombined
          · cases uncombined
            exact ⟨_, _, _, rfl⟩
      · exact ⟨_, _, _, widen_eq_error uncombined⟩
      · cases uncombined
      · cases uncombined
    · cases failed
  · cases failed
  · cases failed

end Typing

namespace Wired

namespace Coherent

variable {wired : WiredMaterial}

theorem orderly (coherent : wired.Coherent) {roots : List NodeId} {schedule : Schedule}
    (scheduled : wired.schedule roots = .ok schedule) : Typing.Orderly wired schedule.order where
  once := nodup_order scheduled
  known := by
    intro id member
    obtain ⟨node, found, _⟩ := coherent.node_of_feeds ((mem_order scheduled).1 member)
    exact Graph.contains_iff.2 ⟨node, found⟩
  producersFirst := coherent.producersFirst scheduled

theorem exists_type_iff (coherent : wired.Coherent) {id : NodeId} {slot : SlotId} :
    (∃ type, Typing.Derivable wired (.output id slot type)) ↔
      Typing.Valid wired id ∧
        ∃ node, wired.node? id = some node ∧ ∃ output ∈ node.outputs, output.id = slot := by
  constructor
  · rintro ⟨type, derived⟩
    refine ⟨derived.valid_of_output, ?_⟩
    cases derived with
    | output _ found member _ => exact ⟨_, found, _, member, rfl⟩
  · rintro ⟨valid, node, found, output, member, rfl⟩
    exact coherent.exists_output_type found valid member

/-- What feeds an input slot whose type is undetermined is a node that the rules reject. -/
theorem invalid_of_undetermined (coherent : wired.Coherent) {id : NodeId} {name : String}
    (faulty : Typing.Faulty wired id (.undeterminedType name)) :
    ∃ node input binding, wired.node? id = some node ∧ input ∈ node.inputs ∧ input.name = name ∧
      input.binding = some binding ∧ ¬Typing.Valid wired binding.node := by
  cases faulty with
  | @operands node operands _ found typed uncombined =>
      obtain ⟨_, _, _, other⟩ := Typing.inferredType_eq_error uncombined
      cases other
  | @input node _ found first =>
      obtain ⟨input, member, rejected⟩ := first.exists_input
      cases rejected with
      | @undetermined binding bound underivable =>
          refine ⟨node, input, binding, found, member, rfl, bound, ?_⟩
          intro valid
          obtain ⟨producer, output, foundProducer, foundOutput⟩ := coherent.bound found member bound
          obtain ⟨outputMember, named⟩ := Node.mem_of_output? foundOutput
          obtain ⟨type, derived⟩ := coherent.exists_output_type foundProducer valid outputMember
          exact underivable type (named ▸ derived)

end Coherent

open Typing in
/-- Checking nodes to the end, producers first, implements the rules of typing: it reports exactly
the rejected nodes, once each, in order and with their faults, and records exactly the output slots
of the others at their types. Two such lists of the same nodes leave the same types and the same
reports; an undetermined type is reported behind the producer at fault; schedules are such lists. -/
theorem checkAll_sound_and_complete {graph : Material} (built : graph.Built) {policy : LinkPolicy}
    {wired : WiredMaterial} (wire : graph.wire policy = .ok wired) :
    (∀ order table diagnostics, Orderly wired order →
      checkAll wired false order [] = (table, diagnostics) →
        (diagnostics.map Diagnostic.node).Sublist order ∧
        (∀ id, id ∈ diagnostics.map Diagnostic.node ↔ id ∈ order ∧ ¬Valid wired id) ∧
        (∀ id fault, ⟨id, fault⟩ ∈ diagnostics ↔ id ∈ order ∧ Faulty wired id fault) ∧
        (∀ id slot type, table.find? (id, slot) = some type ↔
          id ∈ order ∧ Derivable wired (.output id slot type)) ∧
        (∀ id slot, (∃ type, table.find? (id, slot) = some type) ↔
          id ∈ order ∧ Valid wired id ∧
            ∃ node, wired.node? id = some node ∧ ∃ output ∈ node.outputs, output.id = slot) ∧
        ∀ before id name after, diagnostics = before ++ ⟨id, .undeterminedType name⟩ :: after →
          ∃ node input binding, wired.node? id = some node ∧ input ∈ node.inputs ∧
            input.name = name ∧ input.binding = some binding ∧
            binding.node ∈ before.map Diagnostic.node) ∧
    (∀ order other, Orderly wired order → Orderly wired other → (∀ id, id ∈ order ↔ id ∈ other) →
      (∀ key, (checkAll wired false order []).1.find? key =
        (checkAll wired false other []).1.find? key) ∧
      (checkAll wired false order []).2.Perm (checkAll wired false other []).2) ∧
    ∀ roots schedule, wired.schedule roots = .ok schedule → Orderly wired schedule.order := by
  have coherent := coherent_of_wire built wire
  have run : ∀ order, Orderly wired order →
      Reports wired order (checkAll wired false order []).2 ∧
        Recorded wired order (checkAll wired false order []).1 := fun order orderly =>
    checkAll_reports coherent.outputsDistinct (recorded_nil wired) orderly
  refine ⟨?_, ?_, fun roots schedule scheduled => coherent.orderly scheduled⟩
  · intro order table diagnostics orderly outcome
    obtain ⟨reports, recorded⟩ := run order orderly
    rw [outcome] at reports recorded
    refine ⟨reports.listed, reports.rejected, reports.faults, recorded, ?_, ?_⟩
    · intro id slot
      simp only [recorded id slot, exists_and_left, coherent.exists_type_iff]
    · rintro before id name after rfl
      have faulty := ((reports.faults id (.undeterminedType name)).1 (by simp)).2
      obtain ⟨node, input, binding, found, member, named, bound, invalid⟩ :=
        coherent.invalid_of_undetermined faulty
      exact ⟨node, input, binding, found, member, named, bound,
        reports.reported_before orderly found member bound invalid⟩
  · intro order other orderly otherOrderly same
    obtain ⟨reports, recorded⟩ := run order orderly
    obtain ⟨otherReports, otherRecorded⟩ := run other otherOrderly
    constructor
    · rintro ⟨id, slot⟩
      apply Option.ext
      intro type
      rw [recorded, otherRecorded, same]
    · refine (List.perm_ext_iff_of_nodup (reports.nodup orderly)
        (otherReports.nodup otherOrderly)).2 ?_
      rintro ⟨id, fault⟩
      rw [reports.faults, otherReports.faults, same]

end Wired

namespace Sample

def chain : Material :=
  ((Graph.empty "Chain").insert (.ofKind 0 (.math .sin)))
    |>.insert (.ofKind 1 (.math .cos))
    |>.insertRoot (.ofKind 2 (.output .surface))
    |>.connect ⟨0, 0, 1, 0⟩
    |>.connect ⟨1, 0, 2, 1⟩

def chainWired : WiredMaterial :=
  match chain.wire .strict with
  | .ok wired => wired
  | .error _ => .bare chain

theorem chain_built : chain.Built := by
  refine Graph.Built.connect (Graph.Built.connect ?_ _) _
  refine Graph.Built.markRoot (Graph.Built.insert (Graph.Built.insert (Graph.Built.insert
    (Graph.Built.empty _) (.new _ _) ?_) (.new _ _) ?_) (.new _ _) ?_) _ <;>
      intro inner isCall <;> cases isCall

end Sample

/-- A fault runs down the chain: the sine lacks its argument, and so the surface is rejected. -/
theorem Wired.checkAll_sound_and_complete_chain :
    Typing.Orderly Sample.chainWired [0, 1, 2] ∧
      (Typing.checkAll Sample.chainWired false [0, 1, 2] []).2 =
        [⟨0, .missingArgument "Value"⟩, ⟨1, .undeterminedType "Value"⟩,
          ⟨2, .undeterminedType "Metallic"⟩] ∧
      ¬Typing.Valid Sample.chainWired 2 := by
  obtain ⟨checks, _, schedules⟩ := Wired.checkAll_sound_and_complete Sample.chain_built
    (show Sample.chain.wire .strict = .ok Sample.chainWired from rfl)
  have scheduled : Sample.chainWired.schedule [2] = .ok ⟨[[2], [1], [0]], [0, 1, 2]⟩ := by
    decide +kernel
  have orderly := schedules [2] _ scheduled
  have outcome : Typing.checkAll Sample.chainWired false [0, 1, 2] [] =
      ([], [⟨0, .missingArgument "Value"⟩, ⟨1, .undeterminedType "Value"⟩,
        ⟨2, .undeterminedType "Metallic"⟩]) := rfl
  have rejected := (checks _ _ _ orderly outcome).2.1 2
  exact ⟨orderly, by rw [outcome], (rejected.1 (by decide)).2⟩

end MaterialGraph
