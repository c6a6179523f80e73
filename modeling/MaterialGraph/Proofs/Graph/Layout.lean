import MaterialGraph.Graph.Basic
import MaterialGraph.Proofs.Lists

/-!
Slot layouts. A node that its author made anew, renamed or gave defaults to keeps the slots of its
kind, and so does one whose inputs were bound.
-/

set_option autoImplicit false

namespace MaterialGraph

section UpdateFirst

variable {Item Key : Type} [DecidableEq Key] {keyOf : Item → Key} {key : Key}
  {change : Item → Item}

theorem mem_updateFirst {items : List Item} {item : Item}
    (member : item ∈ updateFirst keyOf key change items) :
    item ∈ items ∨ ∃ old ∈ items, keyOf old = key ∧ item = change old := by
  induction items with
  | nil => simp [updateFirst] at member
  | cons first rest ih =>
      unfold updateFirst at member
      split at member
      · rename_i here
        rcases List.mem_cons.1 member with same | later
        · exact Or.inr ⟨first, List.mem_cons_self, here, same⟩
        · exact Or.inl (List.mem_cons_of_mem _ later)
      · rcases List.mem_cons.1 member with same | later
        · exact Or.inl (same ▸ List.mem_cons_self)
        · rcases ih later with old | ⟨old, oldMember, oldKey, changed⟩
          · exact Or.inl (List.mem_cons_of_mem _ old)
          · exact Or.inr ⟨old, List.mem_cons_of_mem _ oldMember, oldKey, changed⟩

theorem map_updateFirst {Other : Type} {read : Item → Other}
    (keeps : ∀ item, read (change item) = read item) (items : List Item) :
    (updateFirst keyOf key change items).map read = items.map read := by
  induction items with
  | nil => rfl
  | cons first rest ih =>
      unfold updateFirst
      split
      · rw [List.map_cons, List.map_cons, keeps]
      · rw [List.map_cons, List.map_cons, ih]

theorem forall₂_updateFirst {Layout : Type} {related : Layout → Item → Prop}
    {layouts : List Layout} {items : List Item} (fits : List.Forall₂ related layouts items)
    (key : Key) (keeps : ∀ layout item, related layout item → related layout (change item)) :
    List.Forall₂ related layouts (updateFirst keyOf key change items) := by
  induction fits with
  | nil => exact List.Forall₂.nil
  | cons first rest ih =>
      unfold updateFirst
      split
      · exact List.Forall₂.cons (keeps _ _ first) rest
      · exact List.Forall₂.cons first ih

theorem find?_updateFirst (keeps : ∀ item, keyOf (change item) = keyOf item) (items : List Item)
    (sought : Key) :
    (updateFirst keyOf key change items).find? (fun item => keyOf item = sought) =
      (items.find? fun item => keyOf item = sought).map
        fun item => if sought = key then change item else item := by
  induction items with
  | nil => rfl
  | cons first rest ih =>
      rw [updateFirst]
      by_cases here : keyOf first = key
      · rw [if_pos here]
        by_cases found : keyOf first = sought
        · rw [List.find?_cons_of_pos (by simpa [keeps] using found),
            List.find?_cons_of_pos (by simpa using found), Option.map_some,
            if_pos (found.symm.trans here)]
        · have elsewhere : ¬sought = key := fun same => found (here.trans same.symm)
          rw [List.find?_cons_of_neg (by simpa [keeps] using found),
            List.find?_cons_of_neg (by simpa using found)]
          simp [elsewhere]
      · rw [if_neg here]
        by_cases found : keyOf first = sought
        · rw [List.find?_cons_of_pos (by simpa using found),
            List.find?_cons_of_pos (by simpa using found), Option.map_some,
            if_neg (found ▸ here)]
        · rw [List.find?_cons_of_neg (by simpa using found),
            List.find?_cons_of_neg (by simpa using found), ih]

theorem updateFirst_append {before : List Item} (absent : key ∉ before.map keyOf)
    (items : List Item) :
    updateFirst keyOf key change (before ++ items) =
      before ++ updateFirst keyOf key change items := by
  induction before with
  | nil => rfl
  | cons first rest ih =>
      rw [List.map_cons, List.mem_cons, not_or] at absent
      rw [List.cons_append, updateFirst, if_neg (Ne.symm absent.1), ih absent.2, List.cons_append]

end UpdateFirst

namespace InputSlot

structure Fits (layout slot : InputSlot) : Prop where
  id : slot.id = layout.id
  name : slot.name = layout.name
  allowed : slot.allowed = layout.allowed
  required : slot.required = layout.required
  default : layout.default.isSome = true → slot.default.isSome = true

theorem Fits.refl (slot : InputSlot) : slot.Fits slot := ⟨rfl, rfl, rfl, rfl, fun given => given⟩

def unbind (slot : InputSlot) : InputSlot := { slot with binding := none }

theorem fits_unbind {layout slot : InputSlot} : layout.Fits slot.unbind ↔ layout.Fits slot :=
  ⟨fun ⟨id, name, allowed, required, default⟩ => ⟨id, name, allowed, required, default⟩,
    fun ⟨id, name, allowed, required, default⟩ => ⟨id, name, allowed, required, default⟩⟩

end InputSlot

def Kind.literals {Target : Type} : Kind Target → List Literal
  | constant value _ => [value]
  | functionInput _ _ default => default.toList
  | _ => []

namespace Node

variable {Target : Type}

theorem unbind_inputs (node : Node Target) :
    node.unbind.inputs = node.inputs.map InputSlot.unbind := rfl

theorem mem_of_input? {node : Node Target} {slot : SlotId} {input : InputSlot}
    (found : node.input? slot = some input) : input ∈ node.inputs ∧ input.id = slot :=
  ⟨List.mem_of_find?_eq_some found, by simpa using List.find?_some found⟩

theorem mem_of_output? {node : Node Target} {slot : SlotId} {output : OutputSlot}
    (found : node.output? slot = some output) : output ∈ node.outputs ∧ output.id = slot :=
  ⟨List.mem_of_find?_eq_some found, by simpa using List.find?_some found⟩

theorem unbind_bind (node : Node Target) (slot : SlotId) (binding : Binding) :
    (node.bind slot binding).unbind = node.unbind := by
  unfold Node.unbind Node.bind updateInput
  simp only [Node.mk.injEq, true_and, and_true]
  apply map_updateFirst
  intro input
  rfl

variable [CallSite Target]

/-- A node as its author makes it: anew, renamed, or with defaults given to its inputs. -/
inductive Built : Node Target → Prop
  | new (id : NodeId) (kind : Kind Target) : Built (.ofKind id kind)
  | named {node : Node Target} (name : String) : Built node → Built (node.withName name)
  | defaulted {node : Node Target} (slot : SlotId) (value : Literal) :
      Built node → Built (node.withDefault slot value)

structure Laid (node : Node Target) : Prop where
  inputs : List.Forall₂ InputSlot.Fits node.kind.inputs node.inputs
  outputs : node.outputs = node.kind.outputs

theorem Built.laid {node : Node Target} (built : node.Built) : node.Laid := by
  induction built with
  | new id kind => exact ⟨List.forall₂_same.2 fun slot _ => .refl slot, rfl⟩
  | named name built ih => exact ⟨ih.inputs, ih.outputs⟩
  | defaulted slot value built ih =>
      refine ⟨forall₂_updateFirst ih.inputs slot ?_, ih.outputs⟩
      intro layout input fits
      exact ⟨fits.id, fits.name, fits.allowed, fits.required, fun _ => rfl⟩

theorem laid_unbind {node : Node Target} : node.unbind.Laid ↔ node.Laid := by
  have inputs : List.Forall₂ InputSlot.Fits node.kind.inputs node.unbind.inputs ↔
      List.Forall₂ InputSlot.Fits node.kind.inputs node.inputs := by
    rw [unbind_inputs, List.forall₂_map_right_iff]
    simp only [InputSlot.fits_unbind]
  exact ⟨fun laid => ⟨inputs.1 laid.inputs, laid.outputs⟩,
    fun laid => ⟨inputs.2 laid.inputs, laid.outputs⟩⟩

namespace Laid

variable {node : Node Target}

theorem map_id (laid : node.Laid) :
    node.inputs.map InputSlot.id = node.kind.inputs.map InputSlot.id :=
  map_eq_map_iff_forall₂.2 (laid.inputs.imp fun _ _ fits => fits.id).flip

theorem input?_of_mem (laid : node.Laid) (distinct : (node.kind.inputs.map InputSlot.id).Nodup)
    {input : InputSlot} (member : input ∈ node.inputs) : node.input? input.id = some input :=
  find?_key_of_mem (laid.map_id ▸ distinct) member

theorem output?_of_mem (laid : node.Laid) (distinct : (node.kind.outputs.map OutputSlot.id).Nodup)
    {output : OutputSlot} (member : output ∈ node.outputs) :
    node.output? output.id = some output :=
  find?_key_of_mem (laid.outputs ▸ distinct) member

theorem exists_input (laid : node.Laid) {layout : InputSlot} (member : layout ∈ node.kind.inputs) :
    ∃ input ∈ node.inputs, layout.Fits input :=
  exists_related_of_mem laid.inputs member

theorem exists_layout (laid : node.Laid) {input : InputSlot} (member : input ∈ node.inputs) :
    ∃ layout ∈ node.kind.inputs, layout.Fits input :=
  exists_related_of_mem laid.inputs.flip member

end Laid

end Node

end MaterialGraph
