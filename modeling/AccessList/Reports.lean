import AccessList.Documents
import AccessList.Rules
import AccessList.Scenarios

/-!
The report of a run: for each request of a scenario what became of it. A table that was
opened has a kind and a handle; a rule that was accepted is reported in the engine's terms,
with a handle if it was placed; a request that failed has the text of its error, and a status
unless it was never submitted.
-/
namespace AccessList.Reports

open Documents Errors Fields Handles Keys Rules Scenarios Verdicts

structure TableReport where
  name : String
  outcome : Except RequestError (Kind × TableHandle)

/-- Why a rule of a scenario failed: before it was submitted, or when it was. -/
inductive Failure
  | notSubmitted (cause : RuleError)
  | request (cause : RequestError)
  deriving DecidableEq

structure RuleReport where
  name : String
  outcome : Except Failure (Rule × Option RuleHandle)

structure Report where
  tables : List TableReport
  rules : List RuleReport

def Failure.message : Failure → String
  | .notSubmitted cause => cause.message
  | .request cause => cause.message

def Failure.status : Failure → Option Statuses.ClientStatus
  | .notSubmitted _ => none
  | .request cause => some cause.status

def failed {ε α : Type} : Except ε α → Bool
  | .ok _ => false
  | .error _ => true

/-- How many requests failed. -/
def Report.failures (r : Report) : Nat :=
  r.tables.countP (fun t => failed t.outcome) + r.rules.countP (fun x => failed x.outcome)

def uint64 (n : UInt64) : Json String := .nat n.toNat

def octets (bs : List UInt8) : Json String := .array (bs.map fun b => .nat b.toNat)

def fieldJson (f : Field) : Json String :=
  .object [("type", .text f.kind.listName), ("field", .text f.name)]

def cellJson : Cell → Json String
  | .bits8 v => .object [("u8", .nat v.toNat)]
  | .bits16 v => .object [("u16", .nat v.toNat)]
  | .bits32 v => .object [("u32", .nat v.toNat)]
  | .mac a => .object [("mac", octets a.octets)]
  | .ipv6 a => .object [("ipv6", octets a.octets)]

def keyJson (k : Key) : Json String :=
  .object [("field", fieldJson k.field), ("value", cellJson k.value), ("mask", cellJson k.mask)]

def targetJson (v : Verdict) : Json String :=
  .object (Json.optional "redirect" (v.target.map uint64))

def ruleJson (r : Rule) : Json String :=
  .object [
    ("table", uint64 r.table.raw),
    ("shape", .text r.kind.name),
    ("priority", .nat r.priority.toNat),
    ("keys", .array (r.keys.map keyJson)),
    ("action", .text r.verdict.action.name),
    ("params", targetJson r.verdict),
    ("references", .array (r.references.map uint64))]

def failureJson (message : String) (status : Option Statuses.ClientStatus) :
    List (String × Json String) :=
  ("error", .text message) :: Json.optional "status" (status.map fun s => .text s.name)

def TableReport.json (t : TableReport) : Json String :=
  .object (("name", .text t.name) ::
    match t.outcome with
    | .ok (k, h) => [("shape", .text k.name), ("handle", uint64 h.raw)]
    | .error e => failureJson e.message (some e.status))

def RuleReport.json (r : RuleReport) : Json String :=
  .object (("name", .text r.name) ::
    match r.outcome with
    | .ok (rule, h) =>
      ("translation", ruleJson rule) :: Json.optional "handle" (h.map fun h => uint64 h.raw)
    | .error e => failureJson e.message e.status)

def Report.json (r : Report) : Json String :=
  .object [
    ("tables", .array (r.tables.map TableReport.json)),
    ("rules", .array (r.rules.map RuleReport.json))]

end AccessList.Reports
