/-!
Terms: the object notation in which settings are stored. Records and tuples may carry a name, and
a name may stand alone.
-/

set_option autoImplicit false

namespace MaterialGraph.Text

inductive Term where
  | unit
  | boolean (value : Bool)
  /-- A whole number, with the integer type that its suffix names. -/
  | integer (negative : Bool) (magnitude : Nat) (suffix : Option String)
  /-- Any other number, as it is written. -/
  | float (numeral : String)
  | text (value : String)
  | character (value : Char)
  | bytes (value : List UInt8)
  | absent
  | present (value : Term)
  | name (value : String)
  | list (elements : List Term)
  | map (entries : List (Term × Term))
  | tuple (name : Option String) (elements : List Term)
  | record (name : Option String) (fields : List (Term × Term))

namespace Term

instance : Inhabited Term := ⟨unit⟩

end Term

end MaterialGraph.Text
