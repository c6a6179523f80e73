import MaterialGraph.Table

/-!
The arguments of the command line. An option is written with two dashes, or with one dash and a
letter, and letters may be run together. The value of an option is joined to it or comes next. A
value is only taken up when the next option is met, so that an earlier fault is found first.
-/

set_option autoImplicit false

namespace MaterialGraph.CommandLine

/-- What takes a value: the graph, which has no name, and the options. -/
inductive Slot where
  | graph
  | settings
  | libraryRoot
  | out
  | logFilter
deriving DecidableEq, Repr

namespace Slot

/-- Whether an empty value is acceptable; a path may not be empty. -/
def mayBeEmpty (slot : Slot) : Bool := slot = logFilter

/-- The variable of the environment that stands in for an option that is not given. -/
def environmentName? : Slot → Option String
  | settings => some "ORDOPLAY_BLUEPRINT_SETTINGS"
  | libraryRoot => some "ORDOPLAY_BLUEPRINT_LIBRARY"
  | logFilter => some "RUST_LOG"
  | graph => none
  | out => none

def all : List Slot := [graph, settings, libraryRoot, out, logFilter]

end Slot

inductive Flag where
  /-- Links that do not fit are errors. -/
  | strictLinks
  /-- All faulty nodes of a root are reported. -/
  | collectAll
  /-- The first faulty node of a root is reported. -/
  | abortOnFirst
  /-- The graph is compiled again when a file changes. -/
  | watch
deriving DecidableEq, Repr

/-- What a name on the command line means. -/
inductive Switch where
  | slot (slot : Slot)
  | flag (flag : Flag)
  | help
  | version
deriving DecidableEq, Repr

namespace Switch

def ofLongName? : String → Option Switch
  | "settings" => some (slot .settings)
  | "library-root" => some (slot .libraryRoot)
  | "out" => some (slot .out)
  | "log-level" => some (slot .logFilter)
  | "strict-links" => some (flag .strictLinks)
  | "collect-all" => some (flag .collectAll)
  | "abort-on-first" => some (flag .abortOnFirst)
  | "watch" => some (flag .watch)
  | "help" => some help
  | "version" => some version
  | _ => none

def ofLetter? : Char → Option Switch
  | 's' => some (slot .settings)
  | 'o' => some (slot .out)
  | 'w' => some (flag .watch)
  | 'h' => some help
  | 'V' => some version
  | _ => none

end Switch

/-- Why the arguments are not acted on. -/
inductive UsageError where
  | missingRequired
  | unknownArgument
  /-- Something is given twice, or together with what it excludes. -/
  | conflict
  /-- A value is missing, or empty where it may not be. -/
  | invalidValue
  /-- A flag is given a value. -/
  | tooManyValues
  | helpRequested
  | versionRequested
deriving DecidableEq, Repr

structure Given where
  values : Table Slot String
  flags : List Flag
deriving DecidableEq, Repr

namespace Given

def value? (given : Given) (slot : Slot) : Option String := given.values.find? slot

def has (given : Given) (flag : Flag) : Bool := given.flags.contains flag

def assign (given : Given) (slot : Slot) : Option String → Except UsageError Given
  | none => .error .invalidValue
  | some value =>
      if (given.value? slot).isSome then .error .conflict
      else if value.isEmpty && !slot.mayBeEmpty then .error .invalidValue
      else .ok { given with values := given.values.insert slot value }

def raise (given : Given) (flag : Flag) : Except UsageError Given :=
  if given.has flag then .error .conflict else .ok { given with flags := given.flags ++ [flag] }

end Given

/-- The state of reading: what is taken up, and the slot that waits to be taken up, with its value
once that is known. -/
structure Progress where
  given : Given
  pending : Option (Slot × Option String)
  hasGraph : Bool
  /-- Whether only values may follow. -/
  valuesOnly : Bool

namespace Progress

def start : Progress := ⟨⟨[], []⟩, none, false, false⟩

def settle (progress : Progress) : Except UsageError Progress :=
  match progress.pending with
  | none => .ok progress
  | some (slot, value) => do
      let given ← progress.given.assign slot value
      pure { progress with given, pending := none }

/-- A slot whose value comes next. -/
def await (progress : Progress) (slot : Slot) : Except UsageError Progress := do
  let progress ← progress.settle
  pure { progress with pending := some (slot, none) }

/-- A slot with its value joined to it. -/
def assign (progress : Progress) (slot : Slot) (value : String) :
    Except UsageError Progress := do
  let progress ← progress.settle
  let given ← progress.given.assign slot (some value)
  pure { progress with given }

def raise (progress : Progress) (flag : Flag) : Except UsageError Progress := do
  let progress ← progress.settle
  let given ← progress.given.raise flag
  pure { progress with given }

/-- Gives up with an error that only comes after what is pending. -/
def stop (progress : Progress) (error : UsageError) : Except UsageError Progress := do
  let _ ← progress.settle
  .error error

/-- A value that belongs to no option. -/
def positional (progress : Progress) (value : String) : Except UsageError Progress :=
  if progress.hasGraph then .error .unknownArgument
  else do
    let progress ← progress.settle
    pure { progress with pending := some (.graph, some value), hasGraph := true }

def long (progress : Progress) (name : String) (value : Option String) :
    Except UsageError Progress :=
  match Switch.ofLongName? name, value with
  | none, _ => .error .unknownArgument
  | some (.slot slot), none => progress.await slot
  | some (.slot slot), some value => progress.assign slot value
  | some _, some _ => .error .tooManyValues
  | some (.flag flag), none => progress.raise flag
  | some .help, none => progress.stop .helpRequested
  | some .version, none => progress.stop .versionRequested

/-- Letters run together; the first that takes a value takes what follows. -/
def letters (progress : Progress) : List Char → Except UsageError Progress
  | [] => .ok progress
  | letter :: rest =>
      match Switch.ofLetter? letter with
      | none => .error .unknownArgument
      | some (.slot slot) =>
          match rest with
          | [] => progress.await slot
          | '=' :: value => progress.assign slot (String.ofList value)
          | value => progress.assign slot (String.ofList value)
      | some (.flag flag) => do
          let progress ← progress.raise flag
          progress.letters rest
      | some .help => progress.stop .helpRequested
      | some .version => progress.stop .versionRequested

def awaits (progress : Progress) : Option Slot :=
  match progress.pending with
  | some (slot, none) => some slot
  | _ => none

/-- A long name and the value joined to it. -/
def splitValue (chars : List Char) : String × Option String :=
  let name := chars.takeWhile (· ≠ '=')
  match chars.drop name.length with
  | [] => (String.ofList name, none)
  | _ :: value => (String.ofList name, some (String.ofList value))

def step (progress : Progress) (argument : String) : Except UsageError Progress :=
  if progress.valuesOnly then progress.positional argument
  else
    match argument.toList with
    | ['-', '-'] => .ok { progress with valuesOnly := true }
    | '-' :: '-' :: rest =>
        let (name, value) := splitValue rest
        progress.long name value
    | '-' :: letter :: rest => progress.letters (letter :: rest)
    | _ =>
        match progress.awaits with
        | some slot => .ok { progress with pending := some (slot, some argument) }
        | none => progress.positional argument

end Progress

structure Invocation where
  graph : String
  settings : Option String
  libraryRoot : Option String
  out : Option String
  logFilter : Option String
  strictLinks : Bool
  collectAll : Bool
  abortOnFirst : Bool
  watch : Bool
deriving DecidableEq, Repr

namespace Given

/-- Fills a slot that is not given from the environment. -/
def fill (environment : String → Option String) (given : Given) (slot : Slot) :
    Except UsageError Given :=
  match given.value? slot, slot.environmentName?.bind environment with
  | none, some value => given.assign slot (some value)
  | _, _ => .ok given

/-- The invocation, if nothing conflicts and nothing is missing. -/
def toInvocation (given : Given) : Except UsageError Invocation :=
  if given.has .collectAll && given.has .abortOnFirst then .error .conflict
  else
    match given.value? .graph with
    | none => .error .missingRequired
    | some graph =>
        .ok ⟨graph, given.value? .settings, given.value? .libraryRoot, given.value? .out,
          given.value? .logFilter, given.has .strictLinks, given.has .collectAll,
          given.has .abortOnFirst, given.has .watch⟩

end Given

/-- The invocation that arguments ask for, in an environment. -/
def Invocation.ofArguments (environment : String → Option String) (arguments : List String) :
    Except UsageError Invocation := do
  let progress ← arguments.foldlM Progress.step Progress.start
  let progress ← progress.settle
  let given ← Slot.all.foldlM (Given.fill environment) progress.given
  given.toInvocation

end MaterialGraph.CommandLine
