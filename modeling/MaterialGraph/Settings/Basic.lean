import MaterialGraph.Graph.Wiring
import MaterialGraph.Settings.Target

/-!
Compiler settings.
-/

set_option autoImplicit false

namespace MaterialGraph

/-- How many faulty nodes of one root are reported. -/
inductive ErrorPolicy where
  /-- The first. -/
  | abortOnFirst
  /-- All of them. -/
  | collectAll
deriving DecidableEq, Repr, Inhabited

namespace ErrorPolicy

def all : List ErrorPolicy := [abortOnFirst, collectAll]

def tag : ErrorPolicy → String
  | abortOnFirst => "AbortOnFirst"
  | collectAll => "CollectAll"

def ofTag? (tag : String) : Option ErrorPolicy := all.find? fun policy => policy.tag = tag

theorem ofTag?_tag (policy : ErrorPolicy) : ofTag? policy.tag = some policy := by
  cases policy <;> decide

end ErrorPolicy

namespace LinkPolicy

def all : List LinkPolicy := [lenient, strict]

def tag : LinkPolicy → String
  | lenient => "Lenient"
  | strict => "Strict"

def ofTag? (tag : String) : Option LinkPolicy := all.find? fun policy => policy.tag = tag

theorem ofTag?_tag (policy : LinkPolicy) : ofTag? policy.tag = some policy := by
  cases policy <;> decide

end LinkPolicy

structure Settings where
  version : UInt32
  errorPolicy : ErrorPolicy
  linkPolicy : LinkPolicy
  target : TargetSettings
deriving DecidableEq, Repr

namespace Settings

/-- The newest version of the format that is understood. -/
def currentVersion : UInt32 := 1

def standard : Settings := ⟨currentVersion, .collectAll, .lenient, .standard⟩

instance : Inhabited Settings := ⟨standard⟩

end Settings

end MaterialGraph
