import AccessList.Keys
import AccessList.Roles
import AccessList.Verdicts

/-!
A client describes a rule by a list of attributes. On a list of a given kind each attribute
has one effect on the rule, found without looking at the attributes around it, or it is an
error. The last attribute that names a table says which table the rule belongs to.
-/
namespace AccessList.Attributes

open Errors Fields Handles Keys Operands Qualifiers Roles Verdicts

inductive Attribute
  | table (raw : UInt64)
  | priority (p : UInt32)
  | field (q : Qualifier) (p : Pattern)
  | packet (a : PacketAction)
  | redirect (target : ObjectId)
  | flood
  deriving DecidableEq

/-- What one attribute adds to a rule. -/
inductive Effect
  | nothing
  | priority (p : UInt32)
  | key (key : Key)
  | bind (objects : List ObjectId)
  | verdict (v : Verdict)
  deriving DecidableEq

/-- The objects that a binding qualifier names. None may be null: a table cannot be taken
off an object again once a later null one has failed. Only ingress interfaces and outer
VLANs can be bound. -/
def boundObjects (k : Kind) (q : Qualifier) (value : Operand) :
    Except RequestError (List ObjectId) :=
  match q with
  | .inPorts =>
    match value.objects? with
    | none => .error (.wrongOperand (.qualifier q) .objectList)
    | some ids =>
      if 0 ∈ ids then .error (.wrongOperand (.qualifier q) .nonNullObjects) else .ok ids
  | .inPort | .outerVlanId =>
    match value.object? with
    | none => .error (.wrongOperand (.qualifier q) .object)
    | some id =>
      if id = 0 then .error (.wrongOperand (.qualifier q) .nonNullObject) else .ok [id]
  | _ => .error (.unsupported q k)

namespace Attribute

/-- What an attribute asks to be done with packets; a redirect has to name a target. -/
def verdict? : Attribute → Except RequestError (Option Verdict)
  | .packet a => .ok (some a.verdict)
  | .redirect target =>
    if target = 0 then .error (.wrongOperand .redirect .redirectTarget)
    else .ok (some (.redirect target))
  | .flood => .ok (some .flood)
  | _ => .ok none

def effect (k : Kind) : Attribute → Except RequestError Effect
  | .table _ => .ok .nothing
  | .priority p => .ok (.priority p)
  | .field q p =>
    match role k q with
    | .refused => .error (.unsupported q k)
    | .binding => (boundObjects k q p.value).map .bind
    | .keyed f =>
      match keyOn k f p with
      | .error e => .error e
      | .ok none => .ok .nothing
      | .ok (some key) => .ok (.key key)
  | a =>
    match a.verdict? with
    | .error e => .error e
    | .ok none => .ok .nothing
    | .ok (some v) => .ok (.verdict v)

def table? : Attribute → Option UInt64
  | .table raw => some raw
  | _ => none

end Attribute

/-- The table of a rule; a null table is none. -/
def tableOf (attrs : List Attribute) : Except RequestError TableHandle :=
  match (attrs.filterMap Attribute.table?).getLast? with
  | none => .error .noTable
  | some raw =>
    match Handle.ofRaw? raw with
    | none => .error .noTable
    | some t => .ok t

namespace Effect

def key? : Effect → Option Key
  | .key k => some k
  | _ => none

def priority? : Effect → Option UInt32
  | .priority p => some p
  | _ => none

def verdict? : Effect → Option Verdict
  | .verdict v => some v
  | _ => none

def objects : Effect → List ObjectId
  | .bind ids => ids
  | _ => []

end Effect

end AccessList.Attributes
