import AccessList.Decoding
import AccessList.JsonReader
import AccessList.Limits
import AccessList.Scenarios

/-!
Settings and scenarios as JSON texts and in files. Settings leave nothing required; a limit
of no keys at all is refused after reading.
-/
namespace AccessList.Files

open Decoding Documents Limits Scenarios

/-- What can be read under a path: bytes, or why there are none. -/
abbrev FileReader := String → Except String (List UInt8)

inductive Content
  | settings
  | scenario
  deriving DecidableEq, Repr

def Content.name : Content → String
  | .settings => "config"
  | .scenario => "scenario"

inductive LoadError
  | unreadable (c : Content) (path reason : String)
  | malformed (c : Content)
  | noKeysAllowed
  deriving DecidableEq

def LoadError.message : LoadError → String
  | .unreadable c path reason => "Failed to read " ++ c.name ++ " " ++ path ++ ": " ++ reason
  | .malformed c => "Failed to parse " ++ c.name
  | .noKeysAllowed => "Invalid config: max_rule_fields must be at least 1"

def keyless? (v : Document) : Option KeylessRules := do
  match ← choice? v with
  | ("reject", v) => (bare? v).map fun () => .rejected
  | ("allow_wildcard", v) => (bare? v).map fun () => .allowed
  | _ => none

def settings? (v : Document) : Option Settings := do
  match ← record? ["empty_match_policy", "max_rule_fields"] v with
  | [keyless, maxKeys] =>
    some {
      keyless := ← defaulted? keyless? standard.keyless keyless
      maxKeys := ← defaulted? (natBelow? UInt64.size) standard.maxKeys maxKeys }
  | _ => none

def checkedSettings (v : Option Document) : Except LoadError Settings :=
  match v.bind settings? with
  | none => .error (.malformed .settings)
  | some s => if s.maxKeys = 0 then .error .noKeysAllowed else .ok s

def checkedScenario (v : Option Document) : Except LoadError Scenario :=
  match v.bind scenario? with
  | none => .error (.malformed .scenario)
  | some s => .ok s

def settingsOfText (text : String) : Except LoadError Settings :=
  checkedSettings (JsonReader.ofText? text)

def scenarioOfText (text : String) : Except LoadError Scenario :=
  checkedScenario (JsonReader.ofText? text)

def bytesOf (c : Content) (read : FileReader) (path : String) :
    Except LoadError (List UInt8) :=
  match read path with
  | .ok bytes => .ok bytes
  | .error reason => .error (.unreadable c path reason)

def loadSettings (read : FileReader) (path : String) : Except LoadError Settings := do
  checkedSettings (JsonReader.ofBytes? (← bytesOf .settings read path))

def loadScenario (read : FileReader) (path : String) : Except LoadError Scenario := do
  checkedScenario (JsonReader.ofBytes? (← bytesOf .scenario read path))

end AccessList.Files
