import MaterialGraph.CommandLine.Run

/-!
The program: reads files and the environment, and leaves the work to the compiler.
-/

set_option autoImplicit false

namespace MaterialGraph.CommandLine

def fileErrorOf : IO.Error → FileError
  | .noFileOrDirectory _ _ _ => .notFound
  | .inappropriateType _ 20 _ => .notDirectory
  | .inappropriateType _ 21 _ => .isDirectory
  | error => .other (toString error)

def readText (path : String) : IO (Except FileError String) := do
  try
    let text ← IO.FS.readFile path
    pure (.ok text)
  catch error => pure (.error (fileErrorOf error))

def writeText (path text : String) : IO (Except FileError Unit) := do
  try
    IO.FS.writeFile path text
    pure (.ok ())
  catch error => pure (.error (fileErrorOf error))

/-- The settings file that an invocation uses, with its text. -/
def readSettings (invocation : Invocation) :
    IO (Option (String × Except FileError String)) := do
  match invocation.settings with
  | some path => do
      let text ← readText path
      pure (some (path, text))
  | none => do
      match ← readText invocation.besidePath with
      | .ok text => pure (some (invocation.besidePath, .ok text))
      | .error _ => pure none

/-- Reads library files, and those that they call, until none is left. -/
partial def readLibrary (root : String) (known : Table String (Except FileError String)) :
    List String → IO (Table String (Except FileError String))
  | [] => pure known
  | path :: rest => do
      if (known.find? path).isSome then readLibrary root known rest
      else
        let text ← readText (Path.join root path)
        let callees := match text with
          | .ok text => calledBy text
          | .error _ => []
        readLibrary root (known.insert path text) (callees ++ rest)

def readSource (root : String) (graph : Except FileError String) : IO Source := do
  let called := match graph with
    | .ok text => calledBy text
    | .error _ => []
  let known ← readLibrary root [] called
  pure ⟨known.filterMap fun (path, text) => text.toOption.map fun text => (path, text),
    fun path =>
      match known.find? path with
      | some (.error error) => error.message
      | _ => FileError.notFound.message⟩

/-- Runs an invocation once; says whether every root compiled. -/
def compileOnce (invocation : Invocation) : IO Bool := do
  match invocation.settingsFrom (← readSettings invocation) with
  | .error failure => do
      IO.eprintln failure.message
      pure false
  | .ok settings => do
      let job := invocation.job settings
      let graph ← readText job.graph
      let source ← readSource job.libraryRoot graph
      match job.compile source graph with
      | .error error => do
          IO.eprintln error.message
          pure false
      | .ok report => do
          for failure in report.failures do
            IO.eprintln failure
          match job.out with
          | none => do
              IO.print report.shader.source
              pure report.isSuccess
          | some path =>
              match ← writeText path report.shader.source with
              | .ok _ => pure report.isSuccess
              | .error error => do
                  IO.eprintln (JobError.write path error).message
                  pure false

def readInputs (invocation : Invocation) : IO (List String) := do
  let settings ← readSettings invocation
  let graph ← readText invocation.graph
  let root := invocation.libraryRoot.getD (Path.directory invocation.graph)
  let source ← readSource root graph
  let given := (settings.bind fun (_, text) => text.toOption).toList ++ graph.toOption.toList
  pure (given ++ source.texts.map Prod.snd)

/-- Runs an invocation again whenever one of its files has changed. -/
partial def watchInputs (invocation : Invocation) (last : List String) : IO Unit := do
  IO.sleep 250
  let inputs ← readInputs invocation
  if inputs ≠ last then
    let _ ← compileOnce invocation
  watchInputs invocation inputs

/-- Runs the program on its arguments and returns the exit code. -/
def runProgram (arguments : List String) : IO UInt32 := do
  let settings ← (Slot.all.filterMap Slot.environmentName?).mapM fun name => do
    let value ← IO.getEnv name
    pure (name, value)
  match Invocation.ofArguments (fun name => (Table.find? name settings).join) arguments with
  | .error error => do
      IO.print error.exit.2
      if error.exit.1 ≠ 0 then IO.eprintln helpText
      pure (UInt32.ofNat error.exit.1)
  | .ok invocation => do
      if !LogFilter.isValid (invocation.logFilter.getD "") then
        IO.eprintln "Invalid log filter"
        pure 1
      else
        let success ← compileOnce invocation
        if invocation.watch then
          watchInputs invocation (← readInputs invocation)
        pure (if success then 0 else 1)

end MaterialGraph.CommandLine

def main (arguments : List String) : IO UInt32 :=
  MaterialGraph.CommandLine.runProgram arguments
