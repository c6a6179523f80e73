import MaterialGraph.Text.Json

/-!
Reading records and simple values out of JSON trees. A record is an object, or an array of its
fields in order.
-/

set_option autoImplicit false

namespace MaterialGraph.Text.Json

open Decimal

/-- What an object says about a field: `none` if it gives the field more than once. -/
def member? (members : List (Option String × Json)) (name : String) : Option (Option Json) :=
  match members.filter fun entry => entry.1 = some name with
  | [] => some none
  | [(_, value)] => some (some value)
  | _ => none

/-- The fields of a record, each `none` where it is not given. Members of an object that are no
fields are ignored, but every key needs a text; an array may not be longer than the record. -/
def fields? (names : List String) : Json → Option (List (Option Json))
  | object members =>
      if members.all fun entry => entry.1.isSome then names.mapM (member? members) else none
  | array elements =>
      if elements.length ≤ names.length then
        some (elements.map some ++ List.replicate (names.length - elements.length) none)
      else none
  | _ => none

def text? : Json → Option String
  | string text => text
  | _ => none

def boolean? : Json → Option Bool
  | boolean value => some value
  | _ => none

def word? : Json → Option UInt32
  | number numeral => numeral.word?
  | _ => none

def single? : Json → Option Single
  | number numeral => numeral.single?
  | _ => none

/-- The elements of an array, each read in the same way. -/
def list? {Value : Type} (read : Json → Option Value) : Json → Option (List Value)
  | array elements => elements.mapM read
  | _ => none

/-- A name that stands for itself: a string, or an object that gives the name nothing. -/
def name? : Json → Option String
  | string text => text
  | object [(text, null)] => text
  | object [(text, object [])] => text
  | _ => none

def required? {Value : Type} (read : Json → Option Value) (field : Option Json) : Option Value :=
  field.bind read

/-- A field that may be left out or be null. -/
def optional? {Value : Type} (read : Json → Option Value) :
    Option Json → Option (Option Value)
  | none => some none
  | some null => some none
  | some value => (read value).map some

/-- A field that has a value when it is left out. -/
def default? {Value : Type} (read : Json → Option Value) (missing : Value) :
    Option Json → Option Value
  | none => some missing
  | some value => read value

end MaterialGraph.Text.Json
