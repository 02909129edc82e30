import AccessList.Fields
import AccessList.Handles
import AccessList.Qualifiers
import AccessList.Statuses

/-!
Why a call of the engine or a request of a client fails. Each error is a cause from which
the text and the status follow; an engine gives some of its reasons in words of its own.
-/
namespace AccessList.Errors

open Fields Handles Qualifiers Statuses

inductive EngineError
  | status (s : EngineStatus)
  | invalidHandle (raw : UInt64)
  | invalidParameter (reason : String)
  | tableFull (table : String)
  | resourceInUse (object : String)
  deriving DecidableEq

namespace EngineError

/-- The error that stands for a bare status. -/
def ofStatus : EngineStatus → EngineError
  | .invalidParameter =>
    .invalidParameter ("engine returned " ++ EngineStatus.invalidParameter.name)
  | .tableFull => .tableFull "unknown"
  | .resourceInUse => .resourceInUse "unknown"
  | s => .status s

def toStatus : EngineError → EngineStatus
  | .status s => s
  | .invalidHandle _ => .invalidHandle
  | .invalidParameter _ => .invalidParameter
  | .tableFull _ => .tableFull
  | .resourceInUse _ => .resourceInUse

def message : EngineError → String
  | .status s => "switch API call failed: " ++ s.name
  | .invalidHandle raw => "invalid handle: " ++ hexText raw
  | .invalidParameter reason => "invalid parameter: " ++ reason
  | .tableFull table => "table full: " ++ table
  | .resourceInUse object => "resource in use: " ++ object

theorem toStatus_ofStatus (s : EngineStatus) : (ofStatus s).toStatus = s := by
  cases s <;> rfl

end EngineError

/-- What a status means for the call that returned it. -/
def outcome (s : EngineStatus) : Except EngineError Unit :=
  if s = .success then .ok () else .error (.ofStatus s)

/-- The part of a rule whose operand is wrong. -/
inductive Subject
  | field (f : Field)
  | qualifier (q : Qualifier)
  | redirect
  deriving DecidableEq

def Subject.name : Subject → String
  | .field f => f.label
  | .qualifier q => q.name
  | .redirect => "REDIRECT"

/-- The operand that was wanted in place of a wrong one. -/
inductive Wanted
  | value (l : Layout)
  | mask (l : Layout)
  | objectList
  | nonNullObjects
  | object
  | nonNullObject
  | redirectTarget
  deriving DecidableEq

def valueText : Layout → String
  | .octet | .vlanTag => "8-bit value"
  | .halfword => "16-bit value"
  | .word => "32-bit value"
  | .ipv4Address => "IPv4 address"
  | .ipv6Address => "IPv6 address"
  | .macAddress => "MAC address"

def maskText : Layout → String
  | .octet | .vlanTag => "8-bit mask"
  | .halfword => "16-bit mask"
  | .word => "32-bit mask"
  | .ipv4Address => "IPv4 mask"
  | .ipv6Address => "IPv6 mask"
  | .macAddress => "MAC mask"

def Wanted.text : Wanted → String
  | .value l => valueText l
  | .mask l => maskText l
  | .objectList => "object list"
  | .nonNullObjects => "non-null object ids"
  | .object => "object id"
  | .nonNullObject => "non-null object id"
  | .redirectTarget => "non-null redirect target"

inductive RequestError
  | noFittingKind (qs : List Qualifier)
  | noTable
  | unknownTable (t : TableHandle) (cause : EngineError)
  | unsupported (q : Qualifier) (k : Kind)
  | wrongOperand (subject : Subject) (wanted : Wanted)
  | noKeys
  | tooManyKeys (max : Nat)
  | engine (cause : EngineError)
  deriving DecidableEq

namespace RequestError

def status : RequestError → ClientStatus
  | .noFittingKind _ => .invalidParameter
  | .noTable => .mandatoryAttributeMissing
  | .unknownTable _ _ => .invalidObjectId
  | .unsupported _ _ => .notSupported
  | .wrongOperand _ _ => .invalidAttribute
  | .noKeys => .invalidParameter
  | .tooManyKeys _ => .noMemory
  | .engine cause => cause.toStatus.client

def message : RequestError → String
  | .noFittingKind qs =>
    "No ACL table shape supports qualifiers [" ++ ", ".intercalate (qs.map (·.label)) ++ "]"
  | .noTable => "ACL rule has no table"
  | .unknownTable t cause => "Invalid ACL table reference " ++ t.text ++ ": " ++ cause.message
  | .unsupported q k => "Qualifier " ++ q.name ++ " is not supported by " ++ k.name ++ " tables"
  | .wrongOperand subject wanted =>
    "Invalid data for " ++ subject.name ++ ": expected " ++ wanted.text
  | .noKeys => "ACL rule has no match fields"
  | .tooManyKeys max => "Allocation failure: rule exceeds " ++ toString max ++ " key fields"
  | .engine cause => "Switch API error: " ++ cause.message

end RequestError

end AccessList.Errors
