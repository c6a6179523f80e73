import MaterialGraph.Proofs.Decimal.Digits
import MaterialGraph.Text.Json.Token
import MaterialGraph.Text.Json.Writer
import Mathlib.Data.Fintype.Basic
import Mathlib.Tactic.FinCases

/-!
The tokens of written JSON. Each piece that the writer puts out is scanned off the front of
whatever follows it: a quoted string gives its text back, a numeral itself as long as no digit,
point or exponent mark stands behind it, and the blanks of the indented form nothing. So a value
gives its tokens, in order.
-/

set_option autoImplicit false

namespace MaterialGraph.Text.Json

open Decimal

def unitOf (char : Char) : Unit16 :=
  if char.toNat < 32 ∧ char ∉ ['\x08', '\x0c', '\n', '\r', '\t'] then .code char.toNat
  else .raw char

theorem joinUnits_code {unit : Nat} (small : unit < 0xD800) (rest : List Unit16)
    (done : List Char) :
    joinUnits (.code unit :: rest) done = joinUnits rest (Char.ofNat unit :: done) := by
  have notHigh : ¬(0xD800 ≤ unit ∧ unit < 0xDC00) := by omega
  have notLow : ¬(0xDC00 ≤ unit ∧ unit < 0xE000) := by omega
  have notHalf : ¬(0xD800 ≤ unit ∧ unit < 0xE000) := by omega
  cases rest with
  | nil => rw [joinUnits.eq_4 _ _ _ (by simp), if_neg notHalf]
  | cons next rest =>
      cases next with
      | raw char => rw [joinUnits.eq_4 _ _ _ (by simp), if_neg notHalf]
      | code other => rw [joinUnits, if_neg notHigh, if_neg notLow]

theorem joinUnits_unitOf (chars done : List Char) :
    joinUnits (chars.map unitOf) done = some (String.ofList (done.reverse ++ chars)) := by
  induction chars generalizing done with
  | nil => rw [List.map_nil, joinUnits, List.append_nil]
  | cons char rest ih =>
      have taken : joinUnits (unitOf char :: rest.map unitOf) done =
          joinUnits (rest.map unitOf) (char :: done) := by
        unfold unitOf
        split
        · rename_i control
          rw [joinUnits_code (by omega), Char.ofNat_toNat]
        · rw [joinUnits]
      rw [List.map_cons, taken, ih, List.reverse_cons, List.append_assoc, List.singleton_append]

theorem hexUnit?_of_lt {number : Nat} (small : number < 32) :
    hexUnit? '0' '0' (hexDigit (number / 16)) (hexDigit (number % 16)) = some number := by
  interval_cases number <;> rfl

theorem scanString_escapeChar (char : Char) (rest : List Char) (units : List Unit16) :
    scanString (escapeChar char ++ rest) units = scanString rest (unitOf char :: units) := by
  unfold escapeChar
  split
  iterate 7 · rfl
  rename_i notQuote notBackslash notBackspace notFeed notLine notReturn notTab
  split
  · rename_i control
    have unit : unitOf char = .code char.toNat := by
      unfold unitOf
      rw [if_pos]
      refine ⟨control, ?_⟩
      simp only [List.mem_cons, List.not_mem_nil, or_false, not_or]
      exact ⟨notBackspace, notFeed, notLine, notReturn, notTab⟩
    rw [List.cons_append, List.cons_append, List.cons_append, List.cons_append, List.cons_append,
      List.cons_append, List.nil_append, scanString, hexUnit?_of_lt control, unit]
  · rename_i printable
    have unit : unitOf char = .raw char := by
      unfold unitOf
      rw [if_neg fun control => printable control.1]
    rw [List.singleton_append, scanString, if_neg, unit]
    · rintro (control | backslash)
      · exact printable control
      · exact notBackslash backslash
    · exact notQuote
    · exact fun _ _ _ _ _ backslash => absurd backslash notBackslash
    · exact fun _ _ backslash => absurd backslash notBackslash

theorem scanString_quoted (chars rest : List Char) (units : List Unit16) :
    scanString (chars.flatMap escapeChar ++ '"' :: rest) units =
      some (joinUnits (units.reverse ++ chars.map unitOf) [], rest) := by
  induction chars generalizing units with
  | nil => rw [List.flatMap_nil, List.nil_append, scanString, List.map_nil, List.append_nil]
  | cons char more ih =>
      rw [List.flatMap_cons, List.append_assoc, scanString_escapeChar, ih, List.reverse_cons,
        List.append_assoc, List.map_cons, List.singleton_append]

theorem scanToken_quote (text : String) (rest : List Char) :
    scanToken (quote text ++ rest) = some (.string (some text), rest) := by
  have inside : text.toList.flatMap escapeChar ++ ['"'] ++ rest =
      text.toList.flatMap escapeChar ++ '"' :: rest := by
    rw [List.append_assoc, List.singleton_append]
  show (scanString (text.toList.flatMap escapeChar ++ ['"'] ++ rest) []).map _ = _
  rw [inside, scanString_quoted, List.reverse_nil, List.nil_append, joinUnits_unitOf,
    List.reverse_nil, List.nil_append, String.ofList_toList]
  rfl

/-- What may stand behind a number: nothing that would carry it on. -/
def Ends (rest : List Char) : Prop :=
  ∀ char ∈ rest.head?, Digit.ofChar? char = none ∧ char ≠ '.' ∧ char ≠ 'e' ∧ char ≠ 'E'

theorem ends_nil : Ends [] := by
  intro char none
  cases none

theorem ends_comma (rest : List Char) : Ends (',' :: rest) := by
  intro char head
  cases head
  decide

theorem ends_newline (depth : Nat) (rest : List Char) : Ends (newline depth ++ rest) := by
  intro char head
  cases head
  decide

theorem scanDigits_append {rest : List Char}
    (stops : ∀ char ∈ rest.head?, Digit.ofChar? char = none) (digits done : List Digit) :
    scanDigits (digits.map Digit.char ++ rest) done = (done.reverse ++ digits, rest) := by
  induction digits generalizing done with
  | nil =>
      rw [List.map_nil, List.nil_append, List.append_nil]
      cases rest with
      | nil => rfl
      | cons char rest => rw [scanDigits, stops char rfl]
  | cons digit more ih =>
      rw [List.map_cons, List.cons_append, scanDigits, Digit.ofChar?_char]
      show scanDigits (more.map Digit.char ++ rest) (digit :: done) = _
      rw [ih, List.reverse_cons, List.append_assoc, List.singleton_append]

def powerChars : Option PowerOfTen → List Char
  | none => []
  | some power => 'e' :: (power.sign.chars ++ power.digits.map Digit.char)

def fractionChars (fraction : List Digit) : List Char :=
  if fraction.isEmpty then [] else '.' :: fraction.map Digit.char

theorem numeral_chars (numeral : Numeral) (rest : List Char) :
    numeral.chars ++ rest = (if numeral.negative then ['-'] else []) ++
      (numeral.whole.map Digit.char ++
        (fractionChars numeral.fraction ++ (powerChars numeral.power ++ rest))) := by
  rw [← List.append_assoc, ← List.append_assoc, ← List.append_assoc]
  rfl

theorem scanSign_append (sign : ExponentSign) {digits : List Digit} (some : digits ≠ [])
    (rest : List Char) :
    scanSign (sign.chars ++ (digits.map Digit.char ++ rest)) =
      (sign, digits.map Digit.char ++ rest) := by
  cases sign with
  | plus => rfl
  | minus => rfl
  | absent =>
      cases digits with
      | nil => exact absurd rfl some
      | cons digit more => fin_cases digit <;> rfl

theorem scanPower_append {power : Option PowerOfTen} {rest : List Char} (ends : Ends rest)
    (spelled : ∀ written, power = some written → written.digits ≠ []) :
    scanPower (powerChars power ++ rest) = some (power, rest) := by
  cases power with
  | none =>
      cases rest with
      | nil => rfl
      | cons char rest =>
          obtain ⟨_, _, small, capital⟩ := ends char rfl
          rw [powerChars, List.nil_append, scanPower, if_neg (not_or.2 ⟨small, capital⟩)]
  | some power =>
      obtain ⟨sign, digits⟩ := power
      have nonempty : digits ≠ [] := spelled _ rfl
      have stops : ∀ char ∈ rest.head?, Digit.ofChar? char = none :=
        fun char head => (ends char head).1
      rw [powerChars, List.cons_append, List.append_assoc, scanPower, if_pos (Or.inl rfl),
        scanSign_append sign nonempty]
      simp only [scanDigits_append stops, List.reverse_nil, List.nil_append]

theorem stops_power {rest : List Char} (ends : Ends rest) (power : Option PowerOfTen) :
    ∀ char ∈ (powerChars power ++ rest).head?, Digit.ofChar? char = none ∧ char ≠ '.' := by
  intro char head
  cases power with
  | none => exact ⟨(ends char head).1, (ends char head).2.1⟩
  | some power => cases head; decide

theorem scanFraction_append {rest : List Char}
    (stops : ∀ char ∈ rest.head?, Digit.ofChar? char = none ∧ char ≠ '.')
    (fraction : List Digit) :
    scanFraction (fractionChars fraction ++ rest) = some (fraction, rest) := by
  cases fraction with
  | nil =>
      show scanFraction rest = some ([], rest)
      unfold scanFraction
      split
      · exact absurd rfl (stops '.' rfl).2
      · rfl
  | cons digit more =>
      show scanFraction ('.' :: ((digit :: more).map Digit.char ++ rest)) = _
      simp only [scanFraction, scanDigits_append fun char head => (stops char head).1,
        List.reverse_nil, List.nil_append]

theorem stops_fraction {rest : List Char} (stops : ∀ char ∈ rest.head?, Digit.ofChar? char = none)
    (fraction : List Digit) :
    ∀ char ∈ (fractionChars fraction ++ rest).head?, Digit.ofChar? char = none := by
  intro char head
  cases fraction with
  | nil => exact stops char head
  | cons digit more => cases head; decide

theorem scanNumber_append {numeral : Numeral} (written : numeral.Written) {rest : List Char}
    (ends : Ends rest) :
    scanNumber numeral.negative (numeral.whole.map Digit.char ++
        (fractionChars numeral.fraction ++ (powerChars numeral.power ++ rest))) =
      some (numeral, rest) := by
  obtain ⟨negative, whole, fraction, power⟩ := numeral
  obtain ⟨⟨nonempty, leading⟩, spelled⟩ := written
  have afterFraction := stops_power ends power
  have afterWhole := stops_fraction (fun char head => (afterFraction char head).1) fraction
  have fits : ¬(whole.head? = some Digit.zero ∧ 1 < whole.length) := by
    rintro ⟨zero, long⟩
    exact Nat.ne_of_gt long (leading zero)
  unfold scanNumber
  rw [scanDigits_append afterWhole, List.reverse_nil, List.nil_append]
  cases whole with
  | nil => exact absurd rfl nonempty
  | cons first more =>
      simp only
      rw [if_neg fits, scanFraction_append afterFraction]
      simp only [scanPower_append ends spelled]

/-- A numeral is scanned off the front of what does not carry it on. -/
theorem scanToken_number {numeral : Numeral} (written : numeral.Written) {rest : List Char}
    (ends : Ends rest) :
    scanToken (numeral.chars ++ rest) = some (.number numeral, rest) := by
  have scanned := scanNumber_append written ends
  rw [numeral_chars]
  generalize fractionChars numeral.fraction ++ (powerChars numeral.power ++ rest) = behind
    at scanned ⊢
  cases sign : numeral.negative with
  | true =>
      rw [sign] at scanned
      rw [if_pos rfl, List.singleton_append]
      show (scanNumber true (numeral.whole.map Digit.char ++ behind)).map _ = _
      rw [scanned]
      rfl
  | false =>
      rw [sign] at scanned
      obtain ⟨first, more, whole⟩ := List.exists_cons_of_ne_nil written.whole.nonempty
      have plain : scanToken (numeral.whole.map Digit.char ++ behind) =
          (scanNumber false (numeral.whole.map Digit.char ++ behind)).map
            fun read => (.number read.1, read.2) := by
        rw [whole]
        fin_cases first <;> rfl
      rw [if_neg Bool.false_ne_true, List.nil_append, plain, scanned]
      rfl

theorem scanToken_blank {char : Char} (blank : isBlank char = true) (rest : List Char) :
    scanToken (char :: rest) = none := by
  simp only [isBlank, Bool.or_eq_true, decide_eq_true_eq] at blank
  rcases blank with ((rfl | rfl) | rfl) | rfl <;> rfl

theorem scanTokens_blank {char : Char} (blank : isBlank char = true) (rest : List Char)
    (done : List Token) : scanTokens (char :: rest) done = scanTokens rest done := by
  rw [scanTokens, if_pos blank]

theorem scanTokens_of_token {chars rest : List Char} {token : Token}
    (scanned : scanToken chars = some (token, rest)) (done : List Token) :
    scanTokens chars done = scanTokens rest (token :: done) := by
  cases chars with
  | nil => cases scanned
  | cons char tail =>
      have solid : ¬isBlank char = true := by
        intro blank
        rw [scanToken_blank blank] at scanned
        cases scanned
      rw [scanTokens, if_neg solid]
      split
      · rename_i failed
        rw [scanned] at failed
        cases failed
      · rename_i other after taken
        rw [scanned] at taken
        cases taken
        rfl

theorem scanTokens_newline (depth : Nat) (rest : List Char) (done : List Token) :
    scanTokens (newline depth ++ rest) done = scanTokens rest done := by
  rw [newline, List.cons_append, scanTokens_blank rfl]
  generalize 2 * depth = width
  induction width with
  | zero => rfl
  | succ width ih => rw [List.replicate_succ, List.cons_append, scanTokens_blank rfl, ih]

/-- JSON that can be read back: numbers are spelled as numerals are, and every string and key has
a text. -/
inductive Written : Json → Prop
  | null : Written null
  | boolean (value : Bool) : Written (boolean value)
  | number {numeral : Numeral} (spelled : numeral.Written) : Written (number numeral)
  | text (value : String) : Written (text value)
  | array {elements : List Json} (each : ∀ element ∈ elements, Written element) :
      Written (array elements)
  | record {fields : List (String × Json)} (each : ∀ field ∈ fields, Written field.2) :
      Written (record fields)

mutual

def tokensOf : Json → List Token
  | null => [.null]
  | boolean value => [.boolean value]
  | number numeral => [.number numeral]
  | string text => [.string text]
  | array [] => [.openBracket, .closeBracket]
  | array (element :: rest) =>
      .openBracket :: (tokensOf element ++ (tokensOfElements rest ++ [.closeBracket]))
  | object [] => [.openBrace, .closeBrace]
  | object ((key, value) :: rest) =>
      .openBrace :: .string key :: .colon ::
        (tokensOf value ++ (tokensOfMembers rest ++ [.closeBrace]))

def tokensOfElements : List Json → List Token
  | [] => []
  | element :: rest => .comma :: (tokensOf element ++ tokensOfElements rest)

def tokensOfMembers : List (Option String × Json) → List Token
  | [] => []
  | (key, value) :: rest =>
      .comma :: .string key :: .colon :: (tokensOf value ++ tokensOfMembers rest)

end

def Scans (json : Json) : Prop :=
  ∀ (depth : Nat) {rest : List Char} (_ : Ends rest) (done : List Token),
    scanTokens (prettyChars depth json ++ rest) done =
      scanTokens rest ((tokensOf json).reverse ++ done)

theorem scans_of_token {json : Json} {token : Token} (only : tokensOf json = [token])
    (scanned : ∀ (depth : Nat) {rest : List Char}, Ends rest →
      scanToken (prettyChars depth json ++ rest) = some (token, rest)) : Scans json := by
  intro depth rest ends done
  rw [scanTokens_of_token (scanned depth ends), only]
  rfl

theorem ends_prettyElements (elements : List Json) (depth outer : Nat) (rest : List Char) :
    Ends (prettyElements depth elements ++ (newline outer ++ rest)) := by
  cases elements with
  | nil => exact ends_newline outer rest
  | cons element more => exact ends_comma _

theorem scanTokens_prettyElements {elements : List Json}
    (each : ∀ element ∈ elements, Scans element) (depth outer : Nat) (rest : List Char)
    (done : List Token) :
    scanTokens (prettyElements depth elements ++ (newline outer ++ rest)) done =
      scanTokens rest ((tokensOfElements elements).reverse ++ done) := by
  induction elements generalizing done with
  | nil => exact scanTokens_newline outer rest done
  | cons element more ih =>
      obtain ⟨first, others⟩ := List.forall_mem_cons.1 each
      simp only [prettyElements, List.cons_append, List.append_assoc]
      rw [scanTokens_of_token rfl, scanTokens_newline,
        first depth (ends_prettyElements more depth outer rest), ih others]
      simp [tokensOfElements]

theorem scans_array {elements : List Json} (each : ∀ element ∈ elements, Scans element) :
    Scans (array elements) := by
  intro depth rest ends done
  cases elements with
  | nil =>
      show scanTokens ('[' :: ']' :: rest) done = _
      rw [scanTokens_of_token rfl, scanTokens_of_token rfl]
      rfl
  | cons element more =>
      obtain ⟨first, others⟩ := List.forall_mem_cons.1 each
      have chars : prettyChars depth (array (element :: more)) =
          '[' :: (newline (depth + 1) ++ prettyChars (depth + 1) element ++
            prettyElements (depth + 1) more ++ newline depth ++ [']']) := rfl
      simp only [chars, List.cons_append, List.append_assoc]
      rw [scanTokens_of_token rfl, scanTokens_newline,
        first (depth + 1) (ends_prettyElements more (depth + 1) depth _),
        scanTokens_prettyElements others, List.nil_append, scanTokens_of_token rfl]
      simp [tokensOf]

theorem scanTokens_member {value : Json} (scans : Scans value) (key : String) (depth : Nat)
    {rest : List Char} (ends : Ends rest) (done : List Token) :
    scanTokens (quote key ++ ':' :: ' ' :: (prettyChars depth value ++ rest)) done =
      scanTokens rest ((tokensOf value).reverse ++ .colon :: .string (some key) :: done) := by
  rw [scanTokens_of_token (scanToken_quote key _), scanTokens_of_token rfl, scanTokens_blank rfl,
    scans depth ends]

theorem ends_prettyMembers (members : List (Option String × Json)) (depth outer : Nat)
    (rest : List Char) : Ends (prettyMembers depth members ++ (newline outer ++ rest)) := by
  cases members with
  | nil => exact ends_newline outer rest
  | cons member more => exact ends_comma _

theorem scanTokens_prettyMembers {fields : List (String × Json)}
    (each : ∀ field ∈ fields, Scans field.2) (depth outer : Nat) (rest : List Char)
    (done : List Token) :
    scanTokens (prettyMembers depth (fields.map fun field => (some field.1, field.2)) ++
        (newline outer ++ rest)) done =
      scanTokens rest ((tokensOfMembers (fields.map fun field =>
        (some field.1, field.2))).reverse ++ done) := by
  induction fields generalizing done with
  | nil => exact scanTokens_newline outer rest done
  | cons field more ih =>
      obtain ⟨first, others⟩ := List.forall_mem_cons.1 each
      simp only [List.map_cons, prettyMembers, List.cons_append, List.append_assoc]
      rw [scanTokens_of_token rfl, scanTokens_newline, Option.getD_some,
        scanTokens_member first _ _ (ends_prettyMembers _ depth outer rest), ih others]
      simp [tokensOfMembers]

theorem scans_record {fields : List (String × Json)} (each : ∀ field ∈ fields, Scans field.2) :
    Scans (record fields) := by
  intro depth rest ends done
  cases fields with
  | nil =>
      show scanTokens ('\x7b' :: '\x7d' :: rest) done = _
      rw [scanTokens_of_token rfl, scanTokens_of_token rfl]
      rfl
  | cons field more =>
      obtain ⟨first, others⟩ := List.forall_mem_cons.1 each
      have chars : prettyChars depth (record (field :: more)) =
          '\x7b' :: (newline (depth + 1) ++ quote field.1 ++
            ':' :: ' ' :: prettyChars (depth + 1) field.2 ++
            prettyMembers (depth + 1) (more.map fun field => (some field.1, field.2)) ++
            newline depth ++ ['\x7d']) := rfl
      simp only [chars, List.cons_append, List.append_assoc]
      rw [scanTokens_of_token rfl, scanTokens_newline,
        scanTokens_member first _ _ (ends_prettyMembers _ (depth + 1) depth _),
        scanTokens_prettyMembers others, List.nil_append, scanTokens_of_token rfl]
      simp [record, tokensOf]

/-- Written JSON gives its tokens. -/
theorem Written.scans {json : Json} (written : Written json) : Scans json := by
  induction written with
  | null => exact scans_of_token rfl fun _ _ _ => rfl
  | boolean value => cases value <;> exact scans_of_token rfl fun _ _ _ => rfl
  | number spelled => exact scans_of_token rfl fun _ _ ends => scanToken_number spelled ends
  | text value => exact scans_of_token rfl fun _ rest _ => scanToken_quote value rest
  | array _ each => exact scans_array each
  | record _ each => exact scans_record each

theorem tokens?_pretty {json : Json} (written : Written json) :
    tokens? json.pretty = some (tokensOf json) := by
  have scanned := written.scans 0 ends_nil []
  rw [List.append_nil, List.append_nil] at scanned
  rw [tokens?, pretty, String.toList_ofList, scanned, scanTokens, List.reverse_reverse]

end MaterialGraph.Text.Json
