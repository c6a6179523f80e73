import MaterialGraph.Decimal.Layout
import Mathlib.Data.List.DropRight
import Mathlib.Tactic.IntervalCases

/-!
Digits of numbers. Numerals that are made from numbers are spelled as a reader of numerals expects
them: at least one whole digit, no zero in front of others, and a power of ten with digits.
-/

set_option autoImplicit false

namespace MaterialGraph.Decimal

theorem Digit.ofChar?_char (digit : Digit) : ofChar? digit.char = some digit := by
  revert digit
  decide

theorem Digit.ofChar?_digitChar {number : Nat} (small : number < 10) :
    ofChar? number.digitChar = some ⟨number, small⟩ := by
  interval_cases number <;> rfl

theorem digitsOfNat_of_lt {number : Nat} (small : number < 10) :
    digitsOfNat number = [⟨number, small⟩] := by
  rw [digitsOfNat, Nat.toDigits_of_lt_base small,
    List.filterMap_cons_some (Digit.ofChar?_digitChar small), List.filterMap_nil]

theorem digitsOfNat_of_le {number : Nat} (large : 10 ≤ number) :
    digitsOfNat number =
      digitsOfNat (number / 10) ++ [⟨number % 10, Nat.mod_lt _ (by decide)⟩] := by
  rw [digitsOfNat, Nat.toDigits_of_base_le (by decide) large, List.filterMap_append,
    List.filterMap_cons_some (Digit.ofChar?_digitChar (Nat.mod_lt _ (by decide))),
    List.filterMap_nil]
  rfl

theorem natOfDigits_snoc (digits : List Digit) (digit : Digit) :
    natOfDigits (digits ++ [digit]) = 10 * natOfDigits digits + digit.val := by
  unfold natOfDigits
  rw [List.foldl_append, List.foldl_cons, List.foldl_nil]

@[simp] theorem natOfDigits_digitsOfNat (number : Nat) :
    natOfDigits (digitsOfNat number) = number := by
  induction number using Nat.strongRecOn with
  | ind number ih =>
      by_cases small : number < 10
      · rw [digitsOfNat_of_lt small]
        simp [natOfDigits]
      · have large : 10 ≤ number := Nat.le_of_not_lt small
        rw [digitsOfNat_of_le large, natOfDigits_snoc, ih _ (by omega)]
        show 10 * (number / 10) + number % 10 = number
        omega

theorem exists_first_digit {number : Nat} (positive : 0 < number) :
    ∃ first rest, digitsOfNat number = first :: rest ∧ first ≠ Digit.zero := by
  induction number using Nat.strongRecOn with
  | ind number ih =>
      by_cases small : number < 10
      · refine ⟨⟨number, small⟩, [], digitsOfNat_of_lt small, ?_⟩
        intro zero
        exact Nat.ne_of_gt positive (congrArg Fin.val zero)
      · obtain ⟨first, rest, digits, nonzero⟩ := ih (number / 10) (by omega) (by omega)
        have longer := digitsOfNat_of_le (Nat.le_of_not_lt small)
        rw [digits, List.cons_append] at longer
        exact ⟨first, _, longer, nonzero⟩

structure Spelled (digits : List Digit) : Prop where
  nonempty : digits ≠ []
  leading : digits.head? = some Digit.zero → digits.length = 1

theorem Spelled.of_first {first : Digit} (nonzero : first ≠ Digit.zero) (rest : List Digit) :
    Spelled (first :: rest) :=
  ⟨List.cons_ne_nil _ _, fun zero => absurd (Option.some.inj zero) nonzero⟩

theorem Spelled.singleton (digit : Digit) : Spelled [digit] := ⟨List.cons_ne_nil _ _, fun _ => rfl⟩

theorem spelled_digitsOfNat (number : Nat) : Spelled (digitsOfNat number) := by
  by_cases positive : 0 < number
  · obtain ⟨first, rest, digits, nonzero⟩ := exists_first_digit positive
    rw [digits]
    exact .of_first nonzero rest
  · rw [digitsOfNat_of_lt (by omega)]
    exact .singleton _

structure Numeral.Written (numeral : Numeral) : Prop where
  whole : Spelled numeral.whole
  power : ∀ power, numeral.power = some power → power.digits ≠ []

theorem Numeral.written_ofNat (number : Nat) : (Numeral.ofNat number).Written :=
  ⟨spelled_digitsOfNat number, fun _ none => absurd none.symm (Option.some_ne_none _)⟩

/-- No decimal that reads back as a positive number is zero. -/
theorem RoundingInterval.holds_zero {interval : RoundingInterval} (positive : 0 < interval.low)
    (unit power : Int) : interval.holds unit power 0 = false := by
  have low : 0 < interval.low * Nat.pow 2 (unit - 2).toNat * Nat.pow 10 (-power).toNat :=
    Nat.mul_pos (Nat.mul_pos positive (Nat.pow_pos (by decide))) (Nat.pow_pos (by decide))
  unfold holds onOneScale
  simp only [Nat.zero_mul]
  split
  · rw [Bool.and_eq_false_iff, decide_eq_false_iff_not]
    exact Or.inl (Nat.not_le_of_lt low)
  · rw [Bool.and_eq_false_iff, decide_eq_false_iff_not]
    exact Or.inl (Nat.not_lt_zero _)

theorem roundingInterval_low_pos {magnitude : BinaryNumber} (positive : 0 < magnitude.mantissa) :
    0 < (roundingInterval magnitude).low := by
  unfold roundingInterval
  simp only
  split <;> omega

theorem decimalWithDigits_pos {tie : DecimalTie} {magnitude : BinaryNumber} {exponent power : Int}
    {count candidate : Nat} (positive : 0 < magnitude.mantissa)
    (found : decimalWithDigits tie magnitude exponent count = some (candidate, power)) :
    0 < candidate := by
  have held : ∀ unit power, (roundingInterval magnitude).holds unit power candidate = true →
      0 < candidate := by
    intro unit power holds
    apply Nat.pos_of_ne_zero
    rintro rfl
    rw [RoundingInterval.holds_zero (roundingInterval_low_pos positive)] at holds
    cases holds
  unfold decimalWithDigits at found
  simp only at found
  -- The decimal below is taken only where it reads back as the number; the one above is positive.
  generalize (onOneScale _ _ _ _).2 / _ = below at found
  split at found
  · rename_i belowHolds _
    have either : candidate = below ∨ candidate = below + 1 := by
      cases tie <;> split_ifs at found <;> cases found <;> simp
    rcases either with rfl | rfl
    · exact held _ _ belowHolds
    · exact Nat.succ_pos _
  · rename_i belowHolds _
    cases found
    exact held _ _ belowHolds
  · cases found
    exact Nat.succ_pos _
  · cases found

def Scientific.Leading (number : Scientific) : Prop :=
  (number.digits = [Digit.zero] ∧ number.exponent = 0) ∨
    ∃ first rest, number.digits = first :: rest ∧ first ≠ Digit.zero

/-- Without its trailing zeros, a number starts with the same digit. -/
theorem exists_dropTrailingZeros {first : Digit} (nonzero : first ≠ Digit.zero)
    (rest : List Digit) : ∃ more, dropTrailingZeros (first :: rest) = first :: more := by
  have initial : dropTrailingZeros (first :: rest) <+: first :: rest :=
    List.rdropWhile_prefix _ _
  cases dropped : dropTrailingZeros (first :: rest) with
  | nil =>
      have zeros : ∀ digit ∈ first :: rest, decide (digit = Digit.zero) = true :=
        List.rdropWhile_eq_nil_iff.1 dropped
      exact absurd (of_decide_eq_true (zeros first List.mem_cons_self)) nonzero
  | cons other more =>
      rw [dropped, List.cons_prefix_cons] at initial
      exact ⟨more, by rw [initial.1]⟩

theorem shortest_leading (tie : DecimalTie) (magnitude : BinaryNumber) :
    (shortest tie magnitude).Leading := by
  unfold shortest
  split
  · exact Or.inl ⟨rfl, rfl⟩
  rename_i nonzero
  simp only
  split
  · rename_i candidate power found
    obtain ⟨fewer, _, made⟩ := List.exists_of_findSome?_eq_some found
    have positive := decimalWithDigits_pos (Nat.pos_of_ne_zero nonzero) made
    obtain ⟨first, rest, digits, notZero⟩ := exists_first_digit positive
    obtain ⟨more, dropped⟩ := exists_dropTrailingZeros notZero rest
    refine Or.inr ⟨first, more, ?_, notZero⟩
    rw [digits]
    exact dropped
  · exact Or.inl ⟨rfl, rfl⟩

theorem Layout.written_positional (negative : Bool) {number : Scientific}
    (leading : number.Leading) : (positional negative number).Written := by
  unfold positional
  split
  · refine ⟨?_, fun _ none => absurd none.symm (Option.some_ne_none _)⟩
    rcases leading with ⟨digits, exponent⟩ | ⟨first, rest, digits, nonzero⟩
    · simp only [digits, exponent]
      exact .singleton _
    · simp only [digits, List.take_succ_cons, List.cons_append]
      exact .of_first nonzero _
  · exact ⟨.singleton _, fun _ none => absurd none.symm (Option.some_ne_none _)⟩

theorem Layout.written_withPower (layout : Layout) (negative : Bool) {number : Scientific}
    (leading : number.Leading) : (layout.withPower negative number).Written := by
  have single : ∃ first, number.digits.take 1 = [first] := by
    rcases leading with ⟨digits, _⟩ | ⟨first, rest, digits, _⟩
    · exact ⟨Digit.zero, by rw [digits]; rfl⟩
    · exact ⟨first, by rw [digits]; rfl⟩
  obtain ⟨first, whole⟩ := single
  refine ⟨?_, ?_⟩
  · show Spelled (number.digits.take 1)
    rw [whole]
    exact .singleton first
  · intro power written
    cases written
    exact (spelled_digitsOfNat _).nonempty

theorem Layout.written_numeral (layout : Layout) (number : Single) :
    (layout.numeral number).Written := by
  have leading := shortest_leading layout.tie number.magnitude
  unfold numeral
  simp only
  split
  · exact written_positional _ leading
  · exact written_withPower layout _ leading

end MaterialGraph.Decimal
