import MaterialGraph.Text.LowerCase

/-!
Paths as texts. A path names a place by its components; separators may be repeated, and a single
dot means the same place, except that a dot in front stays part of the text.
-/

set_option autoImplicit false

namespace MaterialGraph.Path

def separator : Char := '/'

/-- How much of a path stands before its components: a separator, or a dot with nothing joined to
it. -/
def leadLength : List Char → Nat
  | '/' :: _ => 1
  | ['.'] => 1
  | '.' :: '/' :: _ => 1
  | _ => 0

/-- The last component of a text, which may be empty. -/
def lastComponent (chars : List Char) : List Char :=
  (chars.reverse.takeWhile (· ≠ separator)).reverse

/-- A text without its last component and the separator before it. -/
def withoutLast (chars : List Char) : List Char :=
  chars.take (chars.length - (lastComponent chars).length - 1)

theorem withoutLast_length_lt {chars : List Char} (nonempty : chars ≠ []) :
    (withoutLast chars).length < chars.length := by
  have := List.length_pos_iff.2 nonempty
  simp only [withoutLast, List.length_take]
  omega

/-- Drops empty components and dots from the end. -/
def trimmed (chars : List Char) : List Char :=
  if chars = [] then []
  else if lastComponent chars = [] ∨ lastComponent chars = ['.'] then trimmed (withoutLast chars)
  else chars
termination_by chars.length
decreasing_by exact withoutLast_length_lt ‹_›

/-- The components' part of a path, without what is idle at its end. -/
def body (chars : List Char) : List Char := trimmed (chars.drop (leadLength chars))

/-- The path of the directory that holds a place; the root and the empty path have none. -/
def parent? (path : String) : Option String :=
  let chars := path.toList
  match body chars with
  | [] => if leadLength chars = 1 ∧ chars.head? = some '.' then some "" else none
  | components =>
      some (String.ofList (chars.take (leadLength chars) ++ trimmed (withoutLast components)))

/-- The directory of a file; files named alone are in the current one. -/
def directory (path : String) : String :=
  match parent? path with
  | none => "."
  | some "" => "."
  | some found => found

/-- A path taken from a directory; one that starts at the root stays as it is. -/
def join (directory path : String) : String :=
  if path.toList.head? = some separator then path
  else if directory.isEmpty ∨ directory.toList.getLast? = some separator then directory ++ path
  else directory ++ "/" ++ path

/-- What follows the last dot of a file name, if something stands before that dot. -/
def extension? (path : String) : Option String :=
  let name := lastComponent (body path.toList)
  if name = ['.', '.'] then none
  else
    let extension := (name.reverse.takeWhile (· ≠ '.')).reverse
    let stem := name.take (name.length - extension.length - 1)
    if extension.length = name.length ∨ stem = [] then none else some (String.ofList extension)

def pieces (path : String) : List String := path.splitOn "/"

end MaterialGraph.Path
