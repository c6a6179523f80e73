import Mathlib.Data.List.Basic
import Mathlib.Data.String.Basic

/-!
Texts: their order is that of their encoded bytes, and a numeral before a mark can be read back.
-/

set_option autoImplicit false

namespace MaterialGraph

def bytesOf (text : String) : List UInt8 := text.toUTF8.data.toList

theorem bytesOf_eq (text : String) :
    bytesOf text = text.toList.flatMap String.utf8EncodeChar := by
  have whole : text.toUTF8 = (text.toList.flatMap String.utf8EncodeChar).toByteArray := by
    rw [String.toUTF8_eq_toByteArray]
    conv_lhs => rw [← String.ofList_toList (s := text)]
    rfl
  rw [bytesOf, whole]
  exact List.toList_data_toByteArray

/-- The encoding of a smaller character is smaller, whatever follows. -/
theorem utf8EncodeChar_lt {first second : Char} (below : first < second) (rest more : List UInt8) :
    String.utf8EncodeChar first ++ rest < String.utf8EncodeChar second ++ more := by
  have smaller : first.val.toNat < second.val.toNat := below
  have bound : second.val.toNat < 0x110000 := by
    have valid := second.valid
    simp only [UInt32.isValidChar, Nat.isValidChar] at valid
    omega
  unfold String.utf8EncodeChar
  generalize first.val.toNat = low at *
  generalize second.val.toNat = high at *
  -- Digits to the base 64 are compared from the highest on.
  have digits : ∀ left right : Nat, left < right →
      left / 64 < right / 64 ∨ left / 64 = right / 64 ∧ left % 64 < right % 64 := by omega
  have lowest := digits low high smaller
  have middle := digits (low / 64) (high / 64)
  have upper := digits (low / 4096) (high / 4096)
  have lowParts : low / 64 / 64 = low / 4096 ∧ low / 4096 / 64 = low / 262144 := by omega
  have highParts : high / 64 / 64 = high / 4096 ∧ high / 4096 / 64 = high / 262144 := by omega
  rw [lowParts.1, highParts.1] at middle
  rw [lowParts.2, highParts.2] at upper
  have top : low / 262144 < 8 ∧ high / 262144 < 8 := by omega
  clear digits
  simp only
  split_ifs <;>
    first
    | omega
    | simp only [List.cons_append, List.nil_append, List.cons_lt_cons_iff, UInt8.lt_iff_toNat_lt,
        ← UInt8.toNat_inj, UInt8.toNat_ofNat']
      simp (disch := omega) only [Nat.mod_eq_of_lt]
      omega

theorem utf8EncodeChar_ne_nil (char : Char) : String.utf8EncodeChar char ≠ [] := by
  unfold String.utf8EncodeChar
  simp only
  split_ifs <;> exact List.cons_ne_nil _ _

theorem bytesOf_lt_of_lt {left right : String} (below : left < right) :
    bytesOf left < bytesOf right := by
  rw [bytesOf_eq, bytesOf_eq]
  rw [String.lt_iff] at below
  generalize left.toList = left at below ⊢
  generalize right.toList = right at below ⊢
  induction left generalizing right with
  | nil =>
      cases right with
      | nil => exact absurd below (List.lt_irrefl [])
      | cons first rest =>
          rw [List.flatMap_nil, List.flatMap_cons]
          cases encoded : String.utf8EncodeChar first with
          | nil => exact absurd encoded (utf8EncodeChar_ne_nil first)
          | cons byte bytes => exact List.nil_lt_cons _ _
  | cons first rest induction =>
      cases right with
      | nil => exact absurd below (List.not_lt_nil _)
      | cons other more =>
          rw [List.flatMap_cons, List.flatMap_cons]
          rcases List.cons_lt_cons_iff.1 below with smaller | ⟨rfl, later⟩
          · exact utf8EncodeChar_lt smaller _ _
          · exact List.append_left_lt (induction more later)

theorem bytesOf_lt_iff {left right : String} : bytesOf left < bytesOf right ↔ left < right := by
  constructor
  · intro below
    rcases lt_trichotomy left right with smaller | rfl | larger
    · exact smaller
    · exact absurd below (List.lt_irrefl _)
    · exact absurd (bytesOf_lt_of_lt larger) (List.lt_asymm below)
  · exact bytesOf_lt_of_lt

/-- What stands before the first mark and what stands behind it can be told apart. -/
theorem append_mark_inj {Item : Type} {mark : Item} {left right : List Item}
    (leftFree : mark ∉ left) (rightFree : mark ∉ right) {rest more : List Item}
    (same : left ++ mark :: rest = right ++ mark :: more) : left = right ∧ rest = more := by
  induction left generalizing right with
  | nil =>
      cases right with
      | nil => exact ⟨rfl, (List.cons.inj same).2⟩
      | cons first others =>
          exact absurd ((List.cons.inj same).1 ▸ List.mem_cons_self) rightFree
  | cons first others induction =>
      cases right with
      | nil => exact absurd ((List.cons.inj same).1 ▸ List.mem_cons_self) leftFree
      | cons second behind =>
          rw [List.cons_append, List.cons_append, List.cons.injEq] at same
          obtain ⟨rfl, same⟩ := same
          obtain ⟨rfl, equal⟩ := induction (fun member => leftFree (List.mem_cons_of_mem _ member))
            (fun member => rightFree (List.mem_cons_of_mem _ member)) same
          exact ⟨rfl, equal⟩

theorem toString_nat_inj {left right : Nat} (same : toString left = toString right) :
    left = right := by
  have numbers := congrArg (fun text : String => Nat.ofDigitChars 10 text.toList 0) same
  simpa [Nat.toString_eq_ofList_toDigits] using numbers

theorem isDigit_of_mem_toString {number : Nat} {char : Char}
    (member : char ∈ (toString number).toList) : char.isDigit = true := by
  rw [Nat.toString_eq_ofList_toDigits, String.toList_ofList] at member
  exact Nat.isDigit_of_mem_toDigits (by decide) (by decide) member

end MaterialGraph
