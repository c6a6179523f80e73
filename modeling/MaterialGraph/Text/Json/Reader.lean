import MaterialGraph.Text.Json.Token

/-!
Reading a JSON value from its tokens. The arrays and objects that are still open form a stack, and
each token turns one reader state into the next, so reading a text is a fold over its tokens.
-/

set_option autoImplicit false

namespace MaterialGraph.Text.Json

/-- An open array or object, with what it holds so far, last first. An object also holds the key
whose value is being read. -/
inductive Frame where
  | array (done : List Json)
  | object (done : List (Option String × Json)) (key : Option String)

inductive Reader where
  /-- A value; with `mayClose`, or the end of the array just opened. -/
  | value (stack : List Frame) (mayClose : Bool)
  /-- A key of an object; with `mayClose`, or its end. -/
  | key (stack : List Frame) (done : List (Option String × Json)) (mayClose : Bool)
  | colon (stack : List Frame) (done : List (Option String × Json)) (key : Option String)
  /-- A comma or the end of the innermost frame, after one of its values. -/
  | afterValue (frame : Frame) (stack : List Frame)
  /-- Nothing: the value is complete. -/
  | complete (value : Json)

namespace Reader

/-- Hands a finished value to the innermost frame. -/
def finish (value : Json) : List Frame → Reader
  | [] => complete value
  | .array done :: stack => afterValue (.array (value :: done)) stack
  | .object done name :: stack => afterValue (.object ((name, value) :: done) name) stack

def step : Reader → Token → Option Reader
  | value stack _, .openBrace => some (key stack [] true)
  | value stack _, .openBracket => some (value (.array [] :: stack) true)
  | value stack _, .null => some (finish .null stack)
  | value stack _, .boolean truth => some (finish (.boolean truth) stack)
  | value stack _, .number numeral => some (finish (.number numeral) stack)
  | value stack _, .string text => some (finish (.string text) stack)
  | value (.array [] :: stack) true, .closeBracket => some (finish (.array []) stack)
  | key stack done _, .string text => some (colon stack done text)
  | key stack _ true, .closeBrace => some (finish (.object []) stack)
  | colon stack done name, .colon => some (value (.object done name :: stack) false)
  | afterValue (.array done) stack, .comma => some (value (.array done :: stack) false)
  | afterValue (.array done) stack, .closeBracket => some (finish (.array done.reverse) stack)
  | afterValue (.object done _) stack, .comma => some (key stack done false)
  | afterValue (.object done _) stack, .closeBrace => some (finish (.object done.reverse) stack)
  | _, _ => none

end Reader

/-- The value a text holds, if it is one JSON value and nothing else. -/
def read? (text : String) : Option Json :=
  match tokens? text with
  | none => none
  | some tokens =>
      match tokens.foldlM Reader.step (Reader.value [] false) with
      | some (.complete value) => some value
      | _ => none

end MaterialGraph.Text.Json
