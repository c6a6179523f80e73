import MaterialGraph.Text.Identifier
import MaterialGraph.Text.Term

/-!
The parts of which terms are written: blanks and comments, identifiers, quoted texts and numbers.
Each reader takes what it reads from the front and returns the rest.
-/

set_option autoImplicit false

namespace MaterialGraph.Text.Lexeme

def after? (expected : String) (chars : List Char) : Option (List Char) :=
  if expected.toList.isPrefixOf chars then some (chars.drop expected.length) else none

def begins (expected : String) (chars : List Char) : Bool := expected.toList.isPrefixOf chars

/-- Drops a given word, which no identifier character may follow. -/
def word? (expected : String) (chars : List Char) : Option (List Char) :=
  match after? expected chars with
  | none => none
  | some rest =>
      match rest with
      | [] => some rest
      | next :: _ => if isIdentifierRest next then none else some rest

def isBlank (char : Char) : Bool :=
  [' ', '\t', '\n', '\r', '\x0b', '\x0c', '\u0085', '\u200e', '\u200f', '\u2028',
    '\u2029'].contains char

inductive BlankPlace where
  | between
  /-- In a comment that ends with the line. -/
  | line
  /-- In a comment with so many others around it. -/
  | block (around : Nat)

/-- Skips blanks and comments; a comment between marks has to be closed. -/
def blankFrom : BlankPlace → List Char → Option (List Char)
  | .between, [] => some []
  | .between, '/' :: '/' :: rest => blankFrom .line rest
  | .between, '/' :: '*' :: rest => blankFrom (.block 0) rest
  | .between, char :: rest =>
      if char = '/' then none
      else if isBlank char then blankFrom .between rest
      else some (char :: rest)
  | .line, [] => some []
  | .line, char :: rest =>
      if char = '\n' then blankFrom .between rest else blankFrom .line rest
  | .block _, [] => none
  | .block around, '/' :: '*' :: rest => blankFrom (.block (around + 1)) rest
  | .block 0, '*' :: '/' :: rest => blankFrom .between rest
  | .block (around + 1), '*' :: '/' :: rest => blankFrom (.block around) rest
  | .block around, _ :: rest => blankFrom (.block around) rest

def blank? (chars : List Char) : Option (List Char) := blankFrom .between chars

/-- Skips a comma with the blanks around it, and says whether there was one. -/
def comma? (chars : List Char) : Option (Bool × List Char) := do
  match ← blank? chars with
  | ',' :: rest => do
      let rest ← blank? rest
      pure (true, rest)
  | rest => pure (false, rest)

/-- A raw identifier may also hold points and signs. -/
def isRawIdentifierChar (char : Char) : Bool :=
  char = '.' || char = '+' || char = '-' || isIdentifierRest char

/-- Whether a byte, a byte text or a raw text begins here, and no identifier. -/
def beginsQuoted (chars : List Char) : Bool :=
  ["b\"", "b'", "br#", "br\"", "r\"", "r#\"", "r##"].any fun mark => begins mark chars

/-- An identifier, or a raw one after its mark. -/
def identifier? (chars : List Char) : Option (String × List Char) :=
  if beginsQuoted chars then none
  else
    match after? "r#" chars with
    | some rest =>
        let name := rest.takeWhile isRawIdentifierChar
        if name.isEmpty then none
        else some (String.ofList name, rest.drop name.length)
    | none =>
        match chars with
        | [] => none
        | first :: _ =>
            if isIdentifierStart first then
              let name := chars.takeWhile isIdentifierRest
              some (String.ofList name, chars.drop name.length)
            else none

/-- An identifier that no character follows which only a raw one may hold. -/
def plainIdentifier? (chars : List Char) : Option (String × List Char) :=
  match identifier? chars with
  | some (name, next :: rest) =>
      if isRawIdentifierChar next then none else some (name, next :: rest)
  | found => found

/-- Where an escape stands, and so what it may stand for. -/
inductive EscapePlace where
  | text
  | character
  | bytes
deriving DecidableEq

inductive Escaped where
  | char (value : Char)
  | byte (value : UInt8)

namespace Escaped

def encoded : Escaped → List UInt8
  | char value => (String.singleton value).toUTF8.data.toList
  | byte value => [value]

end Escaped

/-- The one character that bytes encode. -/
def charOfBytes? (bytes : List UInt8) : Option Char :=
  match String.fromUTF8? ⟨bytes.toArray⟩ with
  | none => none
  | some text =>
      match text.toList with
      | [char] => some char
      | _ => none

def hexByte? : List Char → Option (UInt8 × List Char)
  | high :: low :: rest =>
      match hexDigit? high, hexDigit? low with
      | some high, some low => some (UInt8.ofNat (16 * high + low), rest)
      | _, _ => none
  | _ => none

/-- A character from the bytes read so far and at most so many more, each an escape of its own. -/
def charOfEscapes? : Nat → List UInt8 → List Char → Option (Escaped × List Char)
  | more, bytes, chars =>
      match charOfBytes? bytes, more with
      | some char, _ => some (.char char, chars)
      | none, 0 => none
      | none, more + 1 => do
          let rest ← after? "\\x" chars
          let (byte, rest) ← hexByte? rest
          charOfEscapes? more (bytes ++ [byte]) rest

def hexNumber? (digits : List Char) : Option Nat :=
  digits.foldlM (fun number digit => (hexDigit? digit).map (16 * number + ·)) 0

/-- A character by its number: one to six digits between braces. -/
def numberedChar? (chars : List Char) : Option (Escaped × List Char) := do
  let rest ← after? "\x7b" chars
  let digits := (rest.take 6).takeWhile (· ≠ '\x7d')
  let rest ← after? "\x7d" (rest.drop digits.length)
  let number ← hexNumber? digits
  if digits.isEmpty ∨ ¬ number.isValidChar then none
  else some (.char (Char.ofNat number), rest)

/-- An escape, after its backslash. -/
def escape? (place : EscapePlace) : List Char → Option (Escaped × List Char)
  | '\'' :: rest => some (.char '\'', rest)
  | '"' :: rest => some (.char '"', rest)
  | '\\' :: rest => some (.char '\\', rest)
  | 'n' :: rest => some (.char '\n', rest)
  | 'r' :: rest => some (.char '\r', rest)
  | 't' :: rest => some (.char '\t', rest)
  | '0' :: rest => some (.char '\x00', rest)
  | 'u' :: rest => numberedChar? rest
  | 'x' :: rest =>
      match hexByte? rest with
      | none => none
      | some (byte, rest) =>
          match place with
          | .bytes => some (.byte byte, rest)
          | .character => charOfEscapes? 0 [byte] rest
          | .text => charOfEscapes? 3 [byte] rest
  | _ => none

/-- The rest of a quoted text, read up to the closing quote. The number bounds the length. -/
def quotedFrom (place : EscapePlace) : Nat → List Char → Option (List Escaped × List Char)
  | 0, _ => none
  | _ + 1, [] => none
  | _ + 1, '"' :: rest => some ([], rest)
  | bound + 1, '\\' :: rest => do
      let (first, rest) ← escape? place rest
      let (others, rest) ← quotedFrom place bound rest
      pure (first :: others, rest)
  | bound + 1, char :: rest => do
      let (others, rest) ← quotedFrom place bound rest
      pure (.char char :: others, rest)

/-- A quoted text, after its opening quote. -/
def quotedRest? (place : EscapePlace) (chars : List Char) : Option (List Escaped × List Char) :=
  quotedFrom place chars.length chars

/-- Splits at the first occurrence of a mark, which is dropped. -/
def splitAtMark? (mark : List Char) : List Char → Option (List Char × List Char)
  | [] => if mark.isEmpty then some ([], []) else none
  | char :: rest =>
      if mark.isPrefixOf (char :: rest) then some ([], (char :: rest).drop mark.length)
      else (splitAtMark? mark rest).map fun (found, after) => (char :: found, after)

/-- A raw text, after its letter: it ends at a quote with as many hashes as it began with. -/
def rawRest? (chars : List Char) : Option (List Char × List Char) :=
  let hashes := chars.takeWhile (· = '#')
  match chars.drop hashes.length with
  | '"' :: rest => splitAtMark? ('"' :: hashes) rest
  | _ => none

/-- The characters of a text whose escapes are all characters. -/
def charsOf (parts : List Escaped) : List Char :=
  parts.filterMap fun
    | .char value => some value
    | .byte _ => none

def text? : List Char → Option (Term × List Char)
  | '"' :: rest => (quotedRest? .text rest).map fun (parts, rest) =>
      (.text (String.ofList (charsOf parts)), rest)
  | 'r' :: rest => (rawRest? rest).map fun (chars, rest) => (.text (String.ofList chars), rest)
  | _ => none

def byteText? : List Char → Option (Term × List Char)
  | 'b' :: '"' :: rest => (quotedRest? .bytes rest).map fun (parts, rest) =>
      (.bytes (parts.flatMap Escaped.encoded), rest)
  | 'b' :: 'r' :: rest => (rawRest? rest).map fun (chars, rest) =>
      (.bytes (String.ofList chars).toUTF8.data.toList, rest)
  | _ => none

def character? : List Char → Option (Term × List Char)
  | '\'' :: '\\' :: rest =>
      match escape? .character rest with
      | some (.char value, '\'' :: rest) => some (.character value, rest)
      | _ => none
  | '\'' :: char :: '\'' :: rest => some (.character char, rest)
  | _ => none

/-- A byte: an ASCII character between single quotes, marked. -/
def byte? : List Char → Option (Term × List Char)
  | 'b' :: '\'' :: '\\' :: rest =>
      match escape? .bytes rest with
      | some (.byte value, '\'' :: rest) => some (.integer false value.toNat (some "u8"), rest)
      | some (.char value, '\'' :: after) =>
          if begins "u" rest then none else some (.integer false value.toNat (some "u8"), after)
      | _ => none
  | 'b' :: '\'' :: char :: '\'' :: rest =>
      if char.toNat < 128 then some (.integer false char.toNat (some "u8"), rest) else none
  | _ => none

/-- Characters of whole numbers in any base. -/
def isIntegerChar (char : Char) : Bool := (hexDigit? char).isSome || char = '_'

/-- Characters of numbers with a fraction or a power of ten. -/
def isFloatChar (char : Char) : Bool :=
  char.isDigit || ['e', 'E', '.', '+', '-', '_'].contains char

/-- The base that a number is written in, and what follows its mark. -/
def base (chars : List Char) : Nat × List Char :=
  match chars with
  | '0' :: 'b' :: rest => (2, rest)
  | '0' :: 'o' :: rest => (8, rest)
  | '0' :: 'x' :: rest => (16, rest)
  | chars => (10, chars)

/-- The value of digits in a base, with underscores between them. -/
def digitsValue? (base : Nat) (digits : List Char) : Option Nat :=
  (digits.filter (· ≠ '_')).foldlM
    (fun number char =>
      match hexDigit? char with
      | some digit => if digit < base then some (base * number + digit) else none
      | none => none)
    0

/-- A whole number without sign: a digit comes first. -/
def magnitude? (chars : List Char) : Option (Nat × List Char) :=
  let (base, chars) := base chars
  let digits := chars.takeWhile isIntegerChar
  match digits with
  | [] => none
  | '_' :: _ => none
  | digits => (digitsValue? base digits).map fun value => (value, chars.drop digits.length)

/-- Integer types: their suffixes, and the least and the greatest of their numbers, both without
sign. -/
def integerTypes : List (String × Nat × Nat) :=
  let half (bits : Nat) := Nat.pow 2 (bits - 1)
  let full (bits : Nat) := Nat.pow 2 bits
  [("i8", half 8, half 8 - 1), ("i16", half 16, half 16 - 1), ("i32", half 32, half 32 - 1),
    ("i64", half 64, half 64 - 1), ("u8", 0, full 8 - 1), ("u16", 0, full 16 - 1),
    ("u32", 0, full 32 - 1), ("u64", 0, full 64 - 1)]

/-- A whole number after its sign, with a suffix or in the range of 64 bits. A suffix has to follow
the leading run of hexadecimal digits. -/
def unsigned? (negative : Bool) (chars : List Char) : Option (Term × List Char) := do
  let (value, rest) ← magnitude? chars
  let tail := chars.dropWhile isIntegerChar
  match integerTypes.find? fun type => (word? type.1 tail).isSome with
  | some (suffix, least, greatest) =>
      if value ≤ (if negative then least else greatest) then
        some (.integer negative value (some suffix), tail.drop suffix.length)
      else none
  | none =>
      if value ≤ (if negative then Nat.pow 2 63 else Nat.pow 2 64 - 1) then
        some (.integer negative value none, rest)
      else none

def integer? : List Char → Option (Term × List Char)
  | '+' :: rest => unsigned? false rest
  | '-' :: rest => unsigned? true rest
  | chars => unsigned? false chars

/-- Digits with at most one point, at least one digit among them; and what follows. -/
def decimalDigits? (chars : List Char) : Option (List Char) :=
  let whole := chars.takeWhile Char.isDigit
  match chars.drop whole.length with
  | '.' :: rest =>
      let fraction := rest.takeWhile Char.isDigit
      if whole.isEmpty ∧ fraction.isEmpty then none else some (rest.drop fraction.length)
  | rest => if whole.isEmpty then none else some rest

def unsignedPart : List Char → List Char
  | '+' :: rest => rest
  | '-' :: rest => rest
  | chars => chars

def isDecimal (chars : List Char) : Bool :=
  match decimalDigits? (unsignedPart chars) with
  | none => false
  | some [] => true
  | some (mark :: power) =>
      (mark = 'e' || mark = 'E') &&
        (match unsignedPart power with
          | [] => false
          | digits => digits.all Char.isDigit)

/-- Removes underscores, which may follow digits and the mark of the power only. -/
def withoutUnderscores (allowed : Bool) : List Char → Option (List Char)
  | [] => some []
  | char :: rest =>
      if char = '_' then if allowed then withoutUnderscores allowed rest else none
      else
        let allowed :=
          if char = '.' then false
          else allowed || char.isDigit || char = 'e' || char = 'E'
        (withoutUnderscores allowed rest).map (char :: ·)

/-- The names of numbers that are not finite, with signs. -/
def namedFloats : List String := ["inf", "+inf", "-inf", "NaN", "+NaN", "-NaN"]

/-- The suffixes of float types; the first is none. -/
def floatSuffixes : List String := ["", "f32", "f64"]

/-- A number that is not finite, by name. -/
def namedFloat? (names : List String) (chars : List Char) : Option (Term × List Char) :=
  (names.flatMap fun name => floatSuffixes.map (name ++ ·)).findSome? fun name =>
    (word? name chars).map fun rest => (.float name, rest)

/-- A number with a fraction or a power of ten, or one that is not finite. -/
def float? (chars : List Char) : Option (Term × List Char) :=
  match namedFloat? namedFloats chars with
  | some found => some found
  | none =>
      let written := chars.takeWhile isFloatChar
      match withoutUnderscores false written with
      | none => none
      | some numeral =>
          if isDecimal numeral then
            let rest := chars.drop written.length
            some (.float (String.ofList numeral),
              ((word? "f32" rest).or (word? "f64" rest)).getD rest)
          else none

/-- Whether a number is no whole number from the look of it. -/
def looksFractional (chars : List Char) : Bool :=
  let digits := unsignedPart chars
  (digits.takeWhile isIntegerChar).length < (digits.takeWhile isFloatChar).length

/-- A number: a whole one, if it does not look otherwise and is in range, else any. -/
def number? (chars : List Char) : Option (Term × List Char) :=
  if looksFractional chars then float? chars else (integer? chars).or (float? chars)

end MaterialGraph.Text.Lexeme
