import MaterialGraph.CommandLine.Job
import MaterialGraph.CommandLine.LogFilter

/-!
Running the program on a tree of files: what it prints, what it leaves in the tree, and how it
exits.
-/

set_option autoImplicit false

namespace MaterialGraph.CommandLine

namespace Invocation

/-- The settings file and its text. A file that is named has to be there; the one beside the graph
is used if it is. -/
def settingsFile (invocation : Invocation) (tree : FileTree) :
    Option (String × Except FileError String) :=
  match invocation.settings with
  | some path => some (path, tree.read path)
  | none =>
      if tree.isFile invocation.besidePath then
        some (invocation.besidePath, tree.read invocation.besidePath)
      else none

def jobOn (invocation : Invocation) (tree : FileTree) : Except SettingsFailure Job :=
  match invocation.settingsFrom (invocation.settingsFile tree) with
  | .error failure => .error failure
  | .ok settings => .ok (invocation.job settings)

end Invocation

/-- Every path that a file of a tree calls. -/
def calledPaths (tree : FileTree) : List String :=
  tree.files.flatMap fun file => calledBy file.2

namespace Job

/-- Compiles and, if a file is named for it, writes the module. -/
def run (job : Job) (tree : FileTree) : FileTree × Except JobError Report :=
  let source := sourceOf tree.read job.libraryRoot (calledPaths tree)
  match job.compile source (tree.read job.graph) with
  | .error error => (tree, .error error)
  | .ok report =>
      match job.out with
      | none => (tree, .ok report)
      | some path =>
          match tree.write path report.shader.source with
          | .error error => (tree, .error (.write path error))
          | .ok changed => (changed, .ok report)

end Job

structure Exit where
  code : Nat
  output : String
  tree : FileTree

def versionText : String := "ordoplay_blueprint 0.1.0\n"

def helpText : String :=
  "Compile material graphs to WGSL\n\n" ++
  "Usage: ordoplay_blueprint [OPTIONS] <GRAPH>\n\n" ++
  "Arguments:\n" ++
  "  <GRAPH>  Graph description to compile\n\n" ++
  "Options:\n" ++
  "  -s, --settings <SETTINGS>          Compiler settings file\n" ++
  "      --library-root <LIBRARY_ROOT>  Directory nested graph paths are resolved against\n" ++
  "  -o, --out <OUT>                    Output file for the WGSL module\n" ++
  "      --strict-links                 Reject bad links instead of dropping them\n" ++
  "      --collect-all                  Report every validation error of a root\n" ++
  "      --abort-on-first               Stop validating a root at its first error\n" ++
  "  -w, --watch                        Recompile when graph or settings files change\n" ++
  "      --log-level <LOG_LEVEL>        Log filter\n" ++
  "  -h, --help                         Print help\n" ++
  "  -V, --version                      Print version\n"

/-- The exit code and output of a run that ends with its arguments. -/
def UsageError.exit : UsageError → Nat × String
  | .helpRequested => (0, helpText)
  | .versionRequested => (0, versionText)
  | _ => (2, "")

def execute (environment : String → Option String) (arguments : List String)
    (tree : FileTree) : Exit :=
  match Invocation.ofArguments environment arguments with
  | .error error => ⟨error.exit.1, error.exit.2, tree⟩
  | .ok invocation =>
      if !LogFilter.isValid (invocation.logFilter.getD "") then ⟨1, "", tree⟩
      else
        match invocation.jobOn tree with
        | .error _ => ⟨1, "", tree⟩
        | .ok job =>
            match job.run tree with
            | (tree, .error _) => ⟨1, "", tree⟩
            | (tree, .ok report) =>
                ⟨if report.isSuccess then 0 else 1,
                  if job.out.isNone then report.shader.source else "", tree⟩

end MaterialGraph.CommandLine
