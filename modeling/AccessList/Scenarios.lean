import AccessList.Attributes
import AccessList.Decoding
import AccessList.JsonReader
import AccessList.Matches

/-!
A scenario lists the tables and the rules that a client asks for. A rule names its table; the
attributes of the rule are the table, the priority, the matches and the actions, in this
order, as far as they are given.
-/
namespace AccessList.Scenarios

open Attributes Decoding Documents Handles Matches Qualifiers Verdicts

structure TableRequest where
  name : String
  qualifiers : List Qualifier
  deriving DecidableEq

inductive ActionRequest
  | packet (a : PacketAction)
  | redirect (target : ObjectId)
  | flood
  deriving DecidableEq

structure RuleRequest where
  name : String
  table : Option String
  priority : Option UInt32
  matching : List MatchRequest
  actions : List ActionRequest
  deriving DecidableEq

structure Scenario where
  tables : List TableRequest
  rules : List RuleRequest
  deriving DecidableEq

/-- Why a rule cannot be submitted at all. -/
inductive RuleError
  | unknownTable (name : String)
  | invalidValue (q : Qualifier) (cause : ValueError)
  deriving DecidableEq

def RuleError.message : RuleError → String
  | .unknownTable name => "Unknown table: " ++ name
  | .invalidValue q cause => "Invalid value for " ++ q.name ++ ": " ++ cause.message

def checkedPattern (m : MatchRequest) : Except RuleError Operands.Pattern :=
  match m.pattern with
  | .ok p => .ok p
  | .error cause => .error (.invalidValue m.qualifier cause)

def ActionRequest.attribute : ActionRequest → Attribute
  | .packet a => .packet a
  | .redirect target => .redirect target
  | .flood => .flood

def matchAttributes : List MatchRequest → Except RuleError (List Attribute)
  | [] => .ok []
  | m :: rest =>
    match checkedPattern m with
    | .error e => .error e
    | .ok p => (matchAttributes rest).map (.field m.qualifier p :: ·)

def tableAttributes (tableNamed : String → Option TableHandle) :
    Option String → Except RuleError (List Attribute)
  | none => .ok []
  | some name =>
    match tableNamed name with
    | none => .error (.unknownTable name)
    | some t => .ok [.table t.raw]

def RuleRequest.attributes (tableNamed : String → Option TableHandle) (r : RuleRequest) :
    Except RuleError (List Attribute) :=
  match tableAttributes tableNamed r.table with
  | .error e => .error e
  | .ok table =>
    match matchAttributes r.matching with
    | .error e => .error e
    | .ok fields =>
      .ok (table ++ (r.priority.map Attribute.priority).toList ++ fields ++
        r.actions.map ActionRequest.attribute)

def qualifier? (v : Document) : Option Qualifier :=
  (text? v).bind Qualifier.ofText?

def literal? : Document → Option Literal
  | .array items => (items.mapM uint64?).map .list
  | .text s => s.map .text
  | v => (uint64? v).map .number

def matchRequest? (v : Document) : Option MatchRequest := do
  match ← record? ["qualifier", "value", "mask"] v with
  | [qualifier, value, mask] =>
    some {
      qualifier := ← required? qualifier? qualifier
      value := ← required? literal? value
      mask := ← defaulted? (nullable? literal?) none mask }
  | _ => none

def actionRequest? (v : Document) : Option ActionRequest := do
  match ← choice? v with
  | ("packet_action", some v) => ((text? v).bind PacketAction.ofText?).map .packet
  | ("redirect", some v) => (uint64? v).map .redirect
  | ("flood", v) => (bare? v).map fun () => .flood
  | _ => none

def ruleRequest? (v : Document) : Option RuleRequest := do
  match ← record? ["name", "table", "priority", "matches", "actions"] v with
  | [name, table, priority, matching, actions] =>
    some {
      name := ← required? text? name
      table := ← defaulted? (nullable? text?) none table
      priority := ← defaulted? (nullable? uint32?) none priority
      matching := ← defaulted? (list? matchRequest?) [] matching
      actions := ← defaulted? (list? actionRequest?) [] actions }
  | _ => none

def tableRequest? (v : Document) : Option TableRequest := do
  match ← record? ["name", "qualifiers"] v with
  | [name, qualifiers] =>
    some {
      name := ← required? text? name
      qualifiers := ← required? (list? qualifier?) qualifiers }
  | _ => none

def scenario? (v : Document) : Option Scenario := do
  match ← record? ["tables", "rules"] v with
  | [tables, rules] =>
    some {
      tables := ← defaulted? (list? tableRequest?) [] tables
      rules := ← defaulted? (list? ruleRequest?) [] rules }
  | _ => none

end AccessList.Scenarios
