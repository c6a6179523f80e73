import MaterialGraph.Text.Json

/-!
JSON tokens. Blanks between tokens are spaces, tabs, line feeds and carriage returns. A string is
read as a list of units, raw characters and `\u` code units, and paired afterwards, so that a half
pair spoils the text but not the token.
-/

set_option autoImplicit false

namespace MaterialGraph.Text.Json

open Decimal

inductive Token where
  | openBrace
  | closeBrace
  | openBracket
  | closeBracket
  | comma
  | colon
  | null
  | boolean (value : Bool)
  | number (numeral : Numeral)
  | string (text : Option String)

/-- A character of a string token: written as itself, or as a code unit. -/
inductive Unit16 where
  | raw (char : Char)
  | code (unit : Nat)

/-- Joins escaped surrogate pairs; `none` when a half stays alone. The accumulator holds the text
so far, last character first. -/
def joinUnits : List Unit16 → List Char → Option String
  | [], done => some (String.ofList done.reverse)
  | .raw char :: rest, done => joinUnits rest (char :: done)
  | .code unit :: .code next :: rest, done =>
      if 0xD800 ≤ unit ∧ unit < 0xDC00 then
        if 0xDC00 ≤ next ∧ next < 0xE000 then
          joinUnits rest (Char.ofNat (0x10000 + (unit - 0xD800) * 0x400 + (next - 0xDC00)) :: done)
        else none
      else if 0xDC00 ≤ unit ∧ unit < 0xE000 then none
      else joinUnits (.code next :: rest) (Char.ofNat unit :: done)
  | .code unit :: rest, done =>
      if 0xD800 ≤ unit ∧ unit < 0xE000 then none
      else joinUnits rest (Char.ofNat unit :: done)

def hexValue? (char : Char) : Option Nat :=
  let position := char.toNat
  if 48 ≤ position ∧ position < 58 then some (position - 48)
  else if 97 ≤ position ∧ position < 103 then some (position - 87)
  else if 65 ≤ position ∧ position < 71 then some (position - 55)
  else none

def hexUnit? (a b c d : Char) : Option Nat :=
  match hexValue? a, hexValue? b, hexValue? c, hexValue? d with
  | some a, some b, some c, some d => some (((a * 16 + b) * 16 + c) * 16 + d)
  | _, _, _, _ => none

/-- The character a one-letter escape stands for. -/
def escapedChar? : Char → Option Char
  | '"' => some '"'
  | '\\' => some '\\'
  | '/' => some '/'
  | 'b' => some '\x08'
  | 'f' => some '\x0c'
  | 'n' => some '\n'
  | 'r' => some '\r'
  | 't' => some '\t'
  | _ => none

/-- Reads a string token after its opening quote; the units come last first. -/
def scanString : List Char → List Unit16 → Option (Option String × List Char)
  | [], _ => none
  | '"' :: rest, units => some (joinUnits units.reverse [], rest)
  | '\\' :: 'u' :: a :: b :: c :: d :: rest, units =>
      match hexUnit? a b c d with
      | some unit => scanString rest (.code unit :: units)
      | none => none
  | '\\' :: char :: rest, units =>
      match escapedChar? char with
      | some char => scanString rest (.raw char :: units)
      | none => none
  | char :: rest, units =>
      if char.toNat < 32 ∨ char = '\\' then none else scanString rest (.raw char :: units)

theorem scanString_shorter {chars : List Char} {units : List Unit16} {text : Option String}
    {rest : List Char} (scanned : scanString chars units = some (text, rest)) :
    rest.length < chars.length := by
  fun_induction scanString chars units with
  | case1 => simp at scanned
  | case2 => simp_all
  | case3 _ _ _ _ _ _ _ _ induction => have := induction scanned; simp; omega
  | case4 => simp at scanned
  | case5 _ _ _ _ _ _ induction => have := induction scanned; simp; omega
  | case6 => simp at scanned
  | case7 => simp at scanned
  | case8 _ _ _ _ _ _ _ induction => have := induction scanned; simp; omega

def scanDigits : List Char → List Digit → List Digit × List Char
  | [], done => (done.reverse, [])
  | char :: rest, done =>
      match Digit.ofChar? char with
      | some digit => scanDigits rest (digit :: done)
      | none => (done.reverse, char :: rest)

theorem scanDigits_length (chars : List Char) (done : List Digit) :
    (scanDigits chars done).1.length + (scanDigits chars done).2.length =
      done.length + chars.length := by
  fun_induction scanDigits chars done with
  | case1 => simp
  | case2 _ _ _ _ _ induction => simp at induction ⊢; omega
  | case3 => simp

/-- Reads the fraction digits if a point follows. -/
def scanFraction : List Char → Option (List Digit × List Char)
  | '.' :: rest =>
      match scanDigits rest [] with
      | ([], _) => none
      | (digits, rest) => some (digits, rest)
  | rest => some ([], rest)

theorem scanFraction_length {chars : List Char} {digits : List Digit} {rest : List Char}
    (scanned : scanFraction chars = some (digits, rest)) : rest.length ≤ chars.length := by
  unfold scanFraction at scanned
  split at scanned
  · rename_i tail
    have total := scanDigits_length tail []
    split at scanned <;> simp_all
    omega
  · simp_all

def scanSign : List Char → ExponentSign × List Char
  | '+' :: rest => (.plus, rest)
  | '-' :: rest => (.minus, rest)
  | rest => (.absent, rest)

theorem scanSign_length (chars : List Char) : (scanSign chars).2.length ≤ chars.length := by
  unfold scanSign
  split <;> simp

/-- Reads the power of ten if its mark follows. -/
def scanPower (chars : List Char) : Option (Option PowerOfTen × List Char) :=
  match chars with
  | [] => some (none, [])
  | mark :: rest =>
      if mark = 'e' ∨ mark = 'E' then
        let (sign, rest) := scanSign rest
        match scanDigits rest [] with
        | ([], _) => none
        | (digits, rest) => some (some ⟨sign, digits⟩, rest)
      else some (none, chars)

theorem scanPower_length {chars : List Char} {power : Option PowerOfTen} {rest : List Char}
    (scanned : scanPower chars = some (power, rest)) : rest.length ≤ chars.length := by
  unfold scanPower at scanned
  split at scanned
  · simp_all
  · rename_i mark tail
    split at scanned
    · have signed := scanSign_length tail
      have total := scanDigits_length (scanSign tail).2 []
      dsimp only at scanned
      split at scanned <;> simp_all
      omega
    · simp_all

/-- Reads a number token after its sign. A leading zero stands alone. -/
def scanNumber (negative : Bool) (chars : List Char) : Option (Numeral × List Char) :=
  match scanDigits chars [] with
  | ([], _) => none
  | (whole, rest) =>
      if whole.head? = some Digit.zero ∧ 1 < whole.length then none
      else
        match scanFraction rest with
        | none => none
        | some (fraction, rest) =>
            match scanPower rest with
            | none => none
            | some (power, rest) => some (⟨negative, whole, fraction, power⟩, rest)

theorem scanNumber_shorter {negative : Bool} {chars : List Char} {numeral : Numeral}
    {rest : List Char} (scanned : scanNumber negative chars = some (numeral, rest)) :
    rest.length < chars.length := by
  unfold scanNumber at scanned
  have total := scanDigits_length chars []
  split at scanned
  · simp at scanned
  · rename_i whole afterWhole notEmpty digits
    split at scanned
    · simp at scanned
    · split at scanned
      · simp at scanned
      · rename_i fraction afterFraction fractionScanned
        split at scanned
        · simp at scanned
        · rename_i power afterPower powerScanned
          have fractionLength := scanFraction_length fractionScanned
          have powerLength := scanPower_length powerScanned
          cases whole with
          | nil => simp_all
          | cons => simp_all; omega

def isBlank (char : Char) : Bool :=
  char = ' ' || char = '\t' || char = '\n' || char = '\r'

def scanToken : List Char → Option (Token × List Char)
  | [] => none
  | '\x7b' :: rest => some (.openBrace, rest)
  | '\x7d' :: rest => some (.closeBrace, rest)
  | '[' :: rest => some (.openBracket, rest)
  | ']' :: rest => some (.closeBracket, rest)
  | ',' :: rest => some (.comma, rest)
  | ':' :: rest => some (.colon, rest)
  | '"' :: rest => (scanString rest []).map fun (text, rest) => (.string text, rest)
  | 'n' :: 'u' :: 'l' :: 'l' :: rest => some (.null, rest)
  | 't' :: 'r' :: 'u' :: 'e' :: rest => some (.boolean true, rest)
  | 'f' :: 'a' :: 'l' :: 's' :: 'e' :: rest => some (.boolean false, rest)
  | '-' :: rest => (scanNumber true rest).map fun (numeral, rest) => (.number numeral, rest)
  | chars => (scanNumber false chars).map fun (numeral, rest) => (.number numeral, rest)

theorem scanToken_shorter {chars : List Char} {token : Token} {rest : List Char}
    (scanned : scanToken chars = some (token, rest)) : rest.length < chars.length := by
  unfold scanToken at scanned
  split at scanned
  · simp at scanned
  iterate 6 · simp_all
  · obtain ⟨⟨text, after⟩, inner, equal⟩ := Option.map_eq_some_iff.1 scanned
    have := scanString_shorter inner
    simp_all; omega
  iterate 3 · simp only [Option.some.injEq, Prod.mk.injEq] at scanned; simp [← scanned.2]; omega
  · obtain ⟨⟨numeral, after⟩, inner, equal⟩ := Option.map_eq_some_iff.1 scanned
    have := scanNumber_shorter inner
    simp_all; omega
  · obtain ⟨⟨numeral, after⟩, inner, equal⟩ := Option.map_eq_some_iff.1 scanned
    have := scanNumber_shorter inner
    simp_all

/-- All tokens of a text; the accumulator holds those read so far, last first. -/
def scanTokens (chars : List Char) (done : List Token) : Option (List Token) :=
  match chars with
  | [] => some done.reverse
  | char :: rest =>
      if isBlank char then scanTokens rest done
      else
        match _scanned : scanToken (char :: rest) with
        | none => none
        | some (token, after) => scanTokens after (token :: done)
termination_by chars.length
decreasing_by
  · simp
  · exact scanToken_shorter (by assumption)

def tokens? (text : String) : Option (List Token) := scanTokens text.toList []

end MaterialGraph.Text.Json
