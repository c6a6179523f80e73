import MaterialGraph.Text.Identifier

/-!
Log filters: directives with commas between them. A directive is a level, or a target with a span
and a level, each of which may be left out.
-/

set_option autoImplicit false

namespace MaterialGraph.CommandLine.LogFilter

open Text

/-- Where in a directive a character stands. -/
inductive Place where
  | start
  /-- In a level or in the name of a target. -/
  | word
  | span
  | field (isEmpty : Bool)
  | fields
  | afterSpan
  /-- In the level after an equals sign; its characters, last first. -/
  | level (read : List Char)

def beginsWord (char : Char) : Bool :=
  ['-', ':', '_'].contains char || isIdentifierRest char

def step : Place → Char → Option Place
  | .start, char =>
      if char = '[' then some .span else if beginsWord char then some .word else none
  | .word, char =>
      if char = '=' then some (.level []) else if char = '[' then some .span else some .word
  | .span, char =>
      if char = ']' then some .afterSpan
      else if char = '\x7b' then some (.field true)
      else some .span
  | .field isEmpty, char =>
      if char = '\x7d' then if isEmpty then none else some .fields else some (.field false)
  | .fields, char => if char = ']' then some .afterSpan else none
  | .afterSpan, char => if char = '=' then some (.level []) else none
  | .level read, char => some (.level (char :: read))

def levelNames : List String := ["error", "warn", "info", "debug", "trace", "off"]

/-- Whether a text is a level: a name in any case, or a number up to five. -/
def isLevel (chars : List Char) : Bool :=
  levelNames.contains (String.ofList (chars.map Char.toLower)) ||
    (let digits := match chars with
      | '+' :: rest => rest
      | chars => chars
     !digits.isEmpty && digits.all Char.isDigit &&
       digits.foldl (fun number digit => 10 * number + (digit.toNat - 48)) 0 ≤ 5)

def mayEnd : Place → Bool
  | .word => true
  | .afterSpan => true
  | .level read => read.isEmpty || isLevel read.reverse
  | _ => false

def isDirective (chars : List Char) : Bool :=
  let chars := chars.dropWhile Char.isWhitespace
  let chars := (chars.reverse.dropWhile Char.isWhitespace).reverse
  match chars.foldlM step .start with
  | some place => mayEnd place
  | none => false

/-- Whether a text is a log filter; empty directives are left out. -/
def isValid (text : String) : Bool :=
  ((text.splitOn ",").filter fun directive => !directive.isEmpty).all fun directive =>
    isDirective directive.toList

end MaterialGraph.CommandLine.LogFilter
