import MaterialGraph.Files.Path
import MaterialGraph.Table

/-!
Trees of text files, as they lie below one directory. Paths are looked up piece by piece, as a file
system does it. What lies outside the directory is not known: there are directories, but no names
in them.
-/

set_option autoImplicit false

namespace MaterialGraph

inductive FileError where
  | notFound
  | notDirectory
  | isDirectory
  /-- Any other reason, in the system's words. -/
  | other (reason : String)
deriving DecidableEq, Repr

namespace FileError

def message : FileError → String
  | notFound => "No such file or directory (os error 2)"
  | notDirectory => "Not a directory (os error 20)"
  | isDirectory => "Is a directory (os error 21)"
  | other reason => reason

end FileError

/-- The names from the top of the tree down to a file. -/
abbrev FilePath := List String

/-- Files by their names; a directory is there if a file is in it. -/
structure FileTree where
  files : Table FilePath String

namespace FileTree

def isFileAt (tree : FileTree) (path : FilePath) : Bool := (tree.files.find? path).isSome

/-- Whether a directory has this path; the top of the tree always is one. -/
def isDirectoryAt (tree : FileTree) (path : FilePath) : Bool :=
  path.isEmpty || tree.files.keys.any fun file => path.isPrefixOf file && file ≠ path

inductive Place where
  | file (path : FilePath)
  | directory (path : FilePath)
  /-- A directory that is not below the top. -/
  | outside
deriving DecidableEq, Repr

/-- Whether a piece stays where it is. -/
def isIdle (piece : String) : Bool := piece = "" || piece = "."

/-- The place one piece further on. -/
def step (tree : FileTree) (place : Place) (piece : String) : Except FileError Place :=
  match place with
  | .file _ => .error .notDirectory
  | .outside => if isIdle piece || piece = ".." then .ok .outside else .error .notFound
  | .directory path =>
      if isIdle piece then .ok place
      else if piece = ".." then .ok (if path.isEmpty then .outside else .directory path.dropLast)
      else if tree.isFileAt (path ++ [piece]) then .ok (.file (path ++ [piece]))
      else if tree.isDirectoryAt (path ++ [piece]) then .ok (.directory (path ++ [piece]))
      else .error .notFound

def start (path : String) : Place :=
  if path.toList.head? = some Path.separator then .outside else .directory []

def walk (tree : FileTree) (place : Place) (pieces : List String) : Except FileError Place :=
  pieces.foldlM tree.step place

def locate (tree : FileTree) (path : String) : Except FileError Place :=
  if path.isEmpty then .error .notFound else tree.walk (start path) (Path.pieces path)

def read (tree : FileTree) (path : String) : Except FileError String :=
  match tree.locate path with
  | .error error => .error error
  | .ok (.file found) =>
      match tree.files.find? found with
      | some text => .ok text
      | none => .error .notFound
  | .ok _ => .error .isDirectory

def isFile (tree : FileTree) (path : String) : Bool :=
  match tree.locate path with
  | .ok (.file _) => true
  | _ => false

def insert (tree : FileTree) (path : FilePath) (text : String) : FileTree :=
  ⟨tree.files.insert path text⟩

/-- Writes a file with a given name at a place; outside the tree nothing is kept. -/
def writeAt (tree : FileTree) (place : Place) (name text : String) :
    Except FileError FileTree :=
  match place with
  | .file _ => .error .notDirectory
  | .outside => .ok tree
  | .directory path =>
      if tree.isDirectoryAt (path ++ [name]) then .error .isDirectory
      else .ok (tree.insert (path ++ [name]) text)

/-- Writes a file, made if it is not there. The path may not end with a separator. -/
def write (tree : FileTree) (path text : String) : Except FileError FileTree :=
  if path.isEmpty then .error .notFound
  else
    let pieces := Path.pieces path
    let named := (pieces.reverse.dropWhile (· = "")).reverse
    match named.getLast? with
    | none => .error .isDirectory
    | some name =>
        if name = "." ∨ name = ".." then
          match tree.walk (start path) pieces with
          | .error error => .error error
          | .ok _ => .error .isDirectory
        else
          match tree.walk (start path) named.dropLast with
          | .error error => .error error
          | .ok place =>
              if named.length < pieces.length then
                match place with
                | .file _ => .error .notDirectory
                | _ => .error .isDirectory
              else tree.writeAt place name text

/-- The tree of files given by their paths from the top. -/
def ofFiles (files : List (String × String)) : FileTree :=
  files.foldl
    (fun tree file => tree.insert ((Path.pieces file.1).filter fun piece => !isIdle piece) file.2)
    ⟨[]⟩

/-- The files that an earlier tree does not hold with the same text. -/
def changesSince (tree earlier : FileTree) : List (String × String) :=
  (tree.files.filter fun file => earlier.files.find? file.1 ≠ some file.2).map fun file =>
    (String.intercalate "/" file.1, file.2)

end FileTree

end MaterialGraph
