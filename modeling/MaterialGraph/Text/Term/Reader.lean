import MaterialGraph.Text.Term.Lexeme

/-!
Reading terms. Two bounds keep the nesting of a text in check: a container counts once for itself
and once more for what it holds.
-/

set_option autoImplicit false

namespace MaterialGraph.Text.Grammar

open Lexeme

/-- What a text may ask for before its term. -/
inductive Extension where
  | unwrapNewtypes
  | implicitSome
  | unwrapVariantNewtypes
  | explicitStructNames
deriving DecidableEq, Repr

namespace Extension

def ofName? : String → Option Extension
  | "unwrap_newtypes" => some unwrapNewtypes
  | "implicit_some" => some implicitSome
  | "unwrap_variant_newtypes" => some unwrapVariantNewtypes
  | "explicit_struct_names" => some explicitStructNames
  | _ => none

end Extension

abbrev Reader := List Char → Option (Term × List Char)

/-- Reads items up to a closing character. Commas stand between items, and one may stand after the
last. The number bounds how many there are. -/
def itemsFrom {Item : Type} (close : Char) (item : List Char → Option (Item × List Char)) :
    Nat → Bool → List Char → Option (List Item × List Char)
  | 0, _, _ => none
  | bound + 1, afterComma, chars => do
      match ← blank? chars with
      | [] => none
      | char :: rest =>
          if char = close then some ([], rest)
          else if afterComma then do
            let (first, rest) ← item (char :: rest)
            let (comma, rest) ← comma? rest
            let (others, rest) ← itemsFrom close item bound comma rest
            pure (first :: others, rest)
          else none

/-- The items of a container, after its opening character. -/
def items? {Item : Type} (close : Char) (item : List Char → Option (Item × List Char))
    (chars : List Char) : Option (List Item × List Char) :=
  itemsFrom close item (chars.length + 1) true chars

def pair? (key value : Reader) (chars : List Char) : Option ((Term × Term) × List Char) := do
  let (key, rest) ← key chars
  match ← blank? rest with
  | ':' :: rest => do
      let rest ← blank? rest
      let (value, rest) ← value rest
      pure ((key, value), rest)
  | _ => none

/-- The key of a field: an identifier where there is one. -/
def fieldKey? (element : Reader) (chars : List Char) : Option (Term × List Char) :=
  match plainIdentifier? chars with
  | some (name, rest) => some (.name name, rest)
  | none => element chars

def beginsField (chars : List Char) : Bool :=
  match identifier? chars with
  | none => false
  | some (_, rest) =>
      match blank? rest with
      | some (':' :: _) => true
      | _ => false

/-- A record or a tuple, after its opening parenthesis. -/
def grouped? (element : Reader) (name : Option String) (chars : List Char) :
    Option (Term × List Char) := do
  let chars ← blank? chars
  if beginsField chars then
    let (fields, rest) ← items? ')' (pair? (fieldKey? element) element) chars
    pure (.record name fields, rest)
  else
    let (elements, rest) ← items? ')' element chars
    pure (.tuple name elements, rest)

/-- What follows the word for a value that is present: the value between parentheses. With
`unwraps` the value may be written without parentheses of its own. -/
def present? (unwraps : Bool) (inner element : Reader) (chars : List Char) :
    Option (Term × List Char) := do
  match ← blank? chars with
  | '(' :: rest => do
      if unwraps then
        let (value, rest) ← grouped? element none rest
        pure (.present value, rest)
      else
        let rest ← blank? rest
        let (value, rest) ← inner rest
        let (_, rest) ← comma? rest
        match rest with
        | ')' :: rest => pure (.present value, rest)
        | _ => none
  | _ => none

/-- A term that begins with one of the fixed words. -/
def fixed? (chars : List Char) : Option (Term × List Char) :=
  ((word? "true" chars).map (.boolean true, ·)).or <|
  ((word? "false" chars).map (.boolean false, ·)).or <|
  ((word? "None" chars).map (.absent, ·)).or <|
  ((after? "()" chars).map (.unit, ·)).or
  (namedFloat? ["inf", "NaN"] chars)

/-- A name, alone or with a record or tuple. -/
def named? (mayNest : Bool) (element : Reader) (chars : List Char) : Option (Term × List Char) := do
  let (name, rest) ← identifier? chars
  match ← blank? rest with
  | '(' :: rest => if mayNest then grouped? element (some name) rest else none
  | rest => pure (.name name, rest)

/-- A term by its first character. -/
def unnamed? (mayNest : Bool) (element : Reader) (chars : List Char) : Option (Term × List Char) :=
  match chars with
  | [] => none
  | '(' :: rest => if mayNest then grouped? element none rest else none
  | '[' :: rest =>
      if mayNest then (items? ']' element rest).map fun (elements, rest) => (.list elements, rest)
      else none
  | '\x7b' :: rest =>
      if mayNest then
        (items? '\x7d' (pair? element element) rest).map fun (entries, rest) =>
          (.map entries, rest)
      else none
  | '"' :: _ => text? chars
  | 'r' :: _ => text? chars
  | 'b' :: '\'' :: _ => byte? chars
  | 'b' :: _ => byteText? chars
  | '\'' :: _ => character? chars
  | _ => number? chars

/-- A term, given how a term is read one level further in and two levels further in. -/
def termWith (unwraps mayNest : Bool) (inner element : Reader) (chars : List Char) :
    Option (Term × List Char) :=
  match word? "Some" chars with
  | some rest => if mayNest then present? unwraps inner element rest else none
  | none =>
      match fixed? chars with
      | some found => some found
      | none =>
          match identifier? chars with
          | some _ => named? mayNest element chars
          | none => unnamed? mayNest element chars

def refuse : Reader := fun _ => none

/-- A term with so many levels left. -/
def termWithin (unwraps : Bool) : Nat → Reader
  | 0 => termWith unwraps false refuse refuse
  | 1 => termWith unwraps true (termWithin unwraps 0) refuse
  | levels + 2 =>
      termWith unwraps true (termWithin unwraps (levels + 1)) (termWithin unwraps levels)

/-- Drops fixed texts with blanks after each. -/
def fixedTexts? : List String → List Char → Option (List Char)
  | [], chars => some chars
  | expected :: others, chars => do
      let rest ← after? expected chars
      let rest ← blank? rest
      fixedTexts? others rest

/-- One or more extensions, with commas between them. The number bounds how many there are. -/
def extensionsFrom : Nat → List Char → Option (List Extension × List Char)
  | 0, _ => none
  | bound + 1, chars => do
      let (name, rest) ← plainIdentifier? chars
      let extension ← Extension.ofName? name
      let (comma, rest) ← comma? rest
      match comma, rest with
      | true, next :: _ =>
          if isIdentifierStart next then do
            let (others, rest) ← extensionsFrom bound rest
            pure (extension :: others, rest)
          else pure ([extension], rest)
      | _, _ => pure ([extension], rest)

/-- The attributes at the front of a text. The number bounds how many there are. -/
def attributesFrom : Nat → List Char → Option (List Extension × List Char)
  | 0, _ => none
  | bound + 1, chars =>
      match chars with
      | '#' :: _ => do
          let rest ← fixedTexts? ["#", "!", "[", "enable", "("] chars
          let (extensions, rest) ← extensionsFrom rest.length rest
          let rest ← fixedTexts? [")", "]"] rest
          let (others, rest) ← attributesFrom bound rest
          pure (extensions ++ others, rest)
      | _ => some ([], chars)

def levelLimit : Nat := 128

end MaterialGraph.Text.Grammar

namespace MaterialGraph.Text.Term

open Lexeme Grammar

/-- The term a text holds, with the extensions it asks for. -/
def read? (text : String) : Option (List Extension × Term) := do
  let chars ← blank? text.toList
  let (extensions, chars) ← attributesFrom (chars.length + 1) chars
  let unwraps := extensions.contains .unwrapVariantNewtypes
  let (term, rest) ← termWithin unwraps levelLimit chars
  match ← blank? rest with
  | [] => pure (extensions, term)
  | _ => none

end MaterialGraph.Text.Term
