import MaterialGraph.Files.Path

/-!
Which files matter when they change.
-/

set_option autoImplicit false

namespace MaterialGraph.Watch

/-- The extensions of graphs and settings. -/
def standardExtensions : List String := ["json", "ron"]

/-- Whether a file has one of the extensions, which are given in lower case; without any, every
file does. -/
def concerns (extensions : List String) (path : String) : Bool :=
  extensions.isEmpty ||
    (match Path.extension? path with
      | none => false
      | some extension => extensions.contains (Text.lower extension))

end MaterialGraph.Watch
