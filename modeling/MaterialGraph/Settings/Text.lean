import MaterialGraph.Settings.Basic
import MaterialGraph.Text.Quoted
import MaterialGraph.Text.Term.Reader

/-!
Settings as text. A field that is left out has its standard value, unknown fields are ignored, and
a known field may be given once. Settings of a newer version are refused.
-/

set_option autoImplicit false

namespace MaterialGraph

open Text

inductive SettingsError where
  | io (reason : String)
  | unreadable
  | unsupportedVersion (found : UInt32)
deriving DecidableEq, Repr

namespace SettingsError

def message : SettingsError → String
  | io reason => "Settings I/O failed: " ++ reason
  | unreadable => "Invalid settings:"
  | unsupportedVersion found =>
      "Settings version " ++ toString found.toNat ++ " is newer than supported version " ++
        toString Settings.currentVersion.toNat

end SettingsError

namespace Text.Term

def word32? : Term → Option UInt32
  | integer negative magnitude suffix =>
      if (suffix = none ∨ suffix = some "u32") ∧ magnitude < Nat.pow 2 32 ∧
          (negative = true → magnitude = 0) then
        some (UInt32.ofNat magnitude)
      else none
  | _ => none

def string? : Term → Option String
  | text value => some value
  | _ => none

def bareName? : Term → Option String
  | name value => some value
  | _ => none

/-- The fields of a record of a given name. The name may be left out, unless it is demanded. -/
def fieldsOf? (demanded : Bool) (expected : String) : Term → Option (List (String × Term))
  | unit => if demanded then none else some []
  | tuple found [] => if fits found then some [] else none
  | record found fields =>
      if fits found then
        fields.mapM fun field => field.1.bareName?.map fun key => (key, field.2)
      else none
  | _ => none
where
  fits : Option String → Bool
    | none => !demanded
    | some found => found = expected

/-- A field that has a standard value when it is left out, and may be given once. -/
def field? {Value : Type} (fields : List (String × Term)) (key : String)
    (read : Term → Option Value) (standard : Value) : Option Value :=
  match fields.filter fun field => field.1 = key with
  | [] => some standard
  | [(_, value)] => read value
  | _ => none

end Text.Term

namespace TargetSettings

def ofTerm? (demanded : Bool) (term : Term) : Option TargetSettings := do
  let fields ← term.fieldsOf? demanded "TargetSettings"
  let bindGroup ← Term.field? fields "bind_group" Term.word32? standard.bindGroup
  let uniformStruct ← Term.field? fields "uniform_struct" Term.string? standard.uniformStruct
  let uniformBinding ← Term.field? fields "uniform_binding" Term.string? standard.uniformBinding
  let shareThreshold ← Term.field? fields "share_threshold" Term.word32? standard.shareThreshold
  pure ⟨bindGroup, uniformStruct, uniformBinding, shareThreshold⟩

end TargetSettings

namespace Settings

def ofTerm? (demanded : Bool) (term : Term) : Option Settings := do
  let fields ← term.fieldsOf? demanded "CompilerSettings"
  let version ← Term.field? fields "version" Term.word32? standard.version
  let errorPolicy ← Term.field? fields "error_policy"
    (fun value => value.bareName?.bind ErrorPolicy.ofTag?) standard.errorPolicy
  let linkPolicy ← Term.field? fields "link_policy"
    (fun value => value.bareName?.bind LinkPolicy.ofTag?) standard.linkPolicy
  let target ← Term.field? fields "target" (TargetSettings.ofTerm? demanded) standard.target
  pure ⟨version, errorPolicy, linkPolicy, target⟩

def read (text : String) : Except SettingsError Settings :=
  match Term.read? text with
  | none => .error .unreadable
  | some (extensions, term) =>
      match ofTerm? (extensions.contains .explicitStructNames) term with
      | none => .error .unreadable
      | some settings =>
          if currentVersion < settings.version then
            .error (.unsupportedVersion settings.version)
          else .ok settings

def fieldLine (indent : Nat) (key value : String) : String :=
  String.ofList (List.replicate indent ' ') ++ key ++ ": " ++ value ++ ",\n"

def write (settings : Settings) : String :=
  "CompilerSettings(\n" ++
    fieldLine 4 "version" (toString settings.version.toNat) ++
    fieldLine 4 "error_policy" settings.errorPolicy.tag ++
    fieldLine 4 "link_policy" settings.linkPolicy.tag ++
    fieldLine 4 "target"
      ("TargetSettings(\n" ++
        fieldLine 8 "bind_group" (toString settings.target.bindGroup.toNat) ++
        fieldLine 8 "uniform_struct" (quoted settings.target.uniformStruct) ++
        fieldLine 8 "uniform_binding" (quoted settings.target.uniformBinding) ++
        fieldLine 8 "share_threshold" (toString settings.target.shareThreshold.toNat) ++
        "    )") ++
    ")"

end Settings

end MaterialGraph
