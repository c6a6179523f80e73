import MaterialGraph.Text.Json

/-!
Writing JSON: on one line, or indented by two spaces with one element or member a line.
-/

set_option autoImplicit false

namespace MaterialGraph.Text.Json

def hexDigit (value : Nat) : Char :=
  if value < 10 then Char.ofNat (48 + value) else Char.ofNat (87 + value)

/-- A character inside quotes. Quotes, backslashes and control characters are escaped. -/
def escapeChar (char : Char) : List Char :=
  match char with
  | '"' => ['\\', '"']
  | '\\' => ['\\', '\\']
  | '\x08' => ['\\', 'b']
  | '\x0c' => ['\\', 'f']
  | '\n' => ['\\', 'n']
  | '\r' => ['\\', 'r']
  | '\t' => ['\\', 't']
  | char =>
      if char.toNat < 32 then
        ['\\', 'u', '0', '0', hexDigit (char.toNat / 16), hexDigit (char.toNat % 16)]
      else [char]

def quote (text : String) : List Char := '"' :: (text.toList.flatMap escapeChar ++ ['"'])

mutual

/-- The one-line form. A string without text is written as an empty one. -/
def compactChars : Json → List Char
  | null => "null".toList
  | boolean true => "true".toList
  | boolean false => "false".toList
  | number numeral => numeral.chars
  | string text => quote (text.getD "")
  | array [] => ['[', ']']
  | array (element :: rest) => '[' :: (compactChars element ++ compactElements rest ++ [']'])
  | object [] => ['\x7b', '\x7d']
  | object ((key, value) :: rest) =>
      '\x7b' :: (quote (key.getD "") ++ ':' :: compactChars value ++
        compactMembers rest ++ ['\x7d'])

def compactElements : List Json → List Char
  | [] => []
  | element :: rest => ',' :: (compactChars element ++ compactElements rest)

def compactMembers : List (Option String × Json) → List Char
  | [] => []
  | (key, value) :: rest =>
      ',' :: (quote (key.getD "") ++ ':' :: compactChars value ++ compactMembers rest)

end

def compact (value : Json) : String := String.ofList (compactChars value)

def newline (depth : Nat) : List Char := '\n' :: List.replicate (2 * depth) ' '

mutual

/-- The indented form of a value that stands at a depth. -/
def prettyChars (depth : Nat) : Json → List Char
  | null => "null".toList
  | boolean true => "true".toList
  | boolean false => "false".toList
  | number numeral => numeral.chars
  | string text => quote (text.getD "")
  | array [] => ['[', ']']
  | array (element :: rest) =>
      '[' :: (newline (depth + 1) ++ prettyChars (depth + 1) element ++
        prettyElements (depth + 1) rest ++ newline depth ++ [']'])
  | object [] => ['\x7b', '\x7d']
  | object ((key, value) :: rest) =>
      '\x7b' :: (newline (depth + 1) ++ quote (key.getD "") ++
        ':' :: ' ' :: prettyChars (depth + 1) value ++
        prettyMembers (depth + 1) rest ++ newline depth ++ ['\x7d'])

def prettyElements (depth : Nat) : List Json → List Char
  | [] => []
  | element :: rest =>
      ',' :: (newline depth ++ prettyChars depth element ++ prettyElements depth rest)

def prettyMembers (depth : Nat) : List (Option String × Json) → List Char
  | [] => []
  | (key, value) :: rest =>
      ',' :: (newline depth ++ quote (key.getD "") ++
        ':' :: ' ' :: prettyChars depth value ++ prettyMembers depth rest)

end

def pretty (value : Json) : String := String.ofList (prettyChars 0 value)

end MaterialGraph.Text.Json
