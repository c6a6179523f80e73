import MaterialGraph.CommandLine.Arguments
import MaterialGraph.Files.Tree
import MaterialGraph.Library
import MaterialGraph.Settings.Text
import MaterialGraph.Shader

/-!
Compile jobs: which settings an invocation works with, and what compiling its graph reports.
-/

set_option autoImplicit false

namespace MaterialGraph.CommandLine

structure SettingsFailure where
  path : String
  error : SettingsError
deriving DecidableEq, Repr

namespace SettingsFailure

/-- The message, with the cause after it where there is one. -/
def message (failure : SettingsFailure) : String :=
  "Failed to load settings " ++ Text.quoted failure.path ++ ": " ++ failure.error.message ++
    (match failure.error with
      | .io reason => ": " ++ reason
      | _ => "")

end SettingsFailure

structure Job where
  graph : String
  libraryRoot : String
  settings : Settings
  out : Option String
deriving DecidableEq, Repr

namespace Invocation

/-- The settings file that is looked for beside the graph. -/
def besidePath (invocation : Invocation) : String :=
  Path.join (Path.directory invocation.graph) "blueprint.ron"

def adjust (invocation : Invocation) (settings : Settings) : Settings :=
  { settings with
    linkPolicy := if invocation.strictLinks then .strict else settings.linkPolicy
    errorPolicy :=
      if invocation.abortOnFirst then .abortOnFirst
      else if invocation.collectAll then .collectAll
      else settings.errorPolicy }

/-- The settings, from the text of the settings file if there is one. -/
def settingsFrom (invocation : Invocation) :
    Option (String × Except FileError String) → Except SettingsFailure Settings
  | none => .ok (invocation.adjust .standard)
  | some (path, .error error) => .error ⟨path, .io error.message⟩
  | some (path, .ok text) =>
      match Settings.read text with
      | .error error => .error ⟨path, error⟩
      | .ok settings => .ok (invocation.adjust settings)

def job (invocation : Invocation) (settings : Settings) : Job :=
  ⟨invocation.graph, invocation.libraryRoot.getD (Path.directory invocation.graph), settings,
    invocation.out⟩

end Invocation

inductive JobError where
  | readGraph (path : String) (error : FileError)
  | parseGraph (path : String) (error : DescriptionError)
  | instantiate (error : DescriptionError)
  | compile (error : CompileError)
  | assemble (conflict : ParameterConflict)
  | write (path : String) (error : FileError)
deriving DecidableEq, Repr

namespace JobError

def message : JobError → String
  | readGraph path error =>
      "Failed to read graph " ++ Text.quoted path ++ ": " ++ error.message
  | parseGraph path error =>
      "Failed to parse graph " ++ Text.quoted path ++ ": " ++ error.message
  | instantiate error => "Failed to instantiate graph: " ++ error.message
  | compile error => "Graph does not compile: " ++ error.message
  | assemble conflict => "Failed to assemble shader: " ++ conflict.message
  | write path error => "Failed to write " ++ Text.quoted path ++ ": " ++ error.message

end JobError

structure Report where
  digest : Digest
  shader : Shader
  failures : List String

namespace Report

def isSuccess (report : Report) : Bool := report.failures.isEmpty

end Report

namespace Job

/-- Compiles the text of the graph, with its callees from a source. -/
def compileText (job : Job) (source : Source) (text : String) : Except JobError Report :=
  match Description.read text with
  | .error error => .error (.parseGraph job.graph error)
  | .ok description =>
      match (Library.empty.loadGraph source job.settings.linkPolicy description).2 with
      | .error error => .error (.instantiate error)
      | .ok graph =>
          match job.settings.compile graph with
          | .error error => .error (.compile error)
          | .ok compiled =>
              match Shader.ofCompiled job.settings.target compiled with
              | .error conflict => .error (.assemble conflict)
              | .ok shader =>
                  .ok ⟨compiled.digest, shader, compiled.failures.map fun (root, error) =>
                    "root " ++ nodeLabel root ++ ": " ++ error.message⟩

/-- Compiles the graph file, if it could be read. -/
def compile (job : Job) (source : Source) (graph : Except FileError String) :
    Except JobError Report :=
  match graph with
  | .error error => .error (.readGraph job.graph error)
  | .ok text => job.compileText source text

end Job

/-- The paths that a graph text calls; a text that is no graph calls none. -/
def calledBy (text : String) : List String :=
  match Description.read text with
  | .ok description => description.callPaths
  | .error _ => []

/-- The source that reads the listed paths as files below a directory. -/
def sourceOf (read : String → Except FileError String) (root : String) (paths : List String) :
    Source :=
  ⟨paths.foldl
      (fun texts path =>
        match read (Path.join root path) with
        | .ok text => texts.insert path text
        | .error _ => texts)
      [],
    fun path =>
      match read (Path.join root path) with
      | .ok _ => ""
      | .error error => error.message⟩

end MaterialGraph.CommandLine
