import AccessList.Sessions

/-!
The requests of a client, as sessions with the engine. The kind of a table is asked of the
engine each time, so a client keeps nothing between requests. A rule that is placed has its
table bound to all its objects; if one of them fails the rule is taken away again, but the
objects bound before it stay bound.
-/
namespace AccessList.Requests

open Attributes Errors Fields Handles Limits Qualifiers Roles Rules Sessions

/-- The answer of an engine as that of a request. -/
def passOn {α : Type} : Except EngineError α → Except RequestError α
  | .ok a => .ok a
  | .error e => .error (.engine e)

/-- A table of the kind that fits the qualifiers. -/
def openTable (qs : List Qualifier) : Session (Except RequestError TableHandle) :=
  match fitting? qs with
  | none => .done (.error (.noFittingKind qs))
  | some k => .ask (.createTable k) fun answer => .done (passOn answer)

def closeTable (t : TableHandle) : Session (Except RequestError Unit) :=
  .ask (.deleteTable t) fun answer => .done (passOn answer)

def kindOf (t : TableHandle) : Session (Except RequestError Kind) :=
  .ask (.tableKind t) fun
    | .ok k => .done (.ok k)
    | .error e => .done (.error (.unknownTable t e))

/-- The rule that attributes describe, without placing it. -/
def prepare (s : Settings) (attrs : List Attribute) : Session (Except RequestError Rule) :=
  match tableOf attrs with
  | .error e => .done (.error e)
  | .ok t => (kindOf t).bind fun
    | .error e => .done (.error e)
    | .ok k => .done (Rule.ofAttributes s t k attrs)

/-- Binds a table to objects one by one, up to the first that fails. -/
def bindAll (t : TableHandle) : List ObjectId → Session (Except EngineError Unit)
  | [] => .done (.ok ())
  | object :: rest => .ask (.bind t object) fun
    | .error e => .done (.error e)
    | .ok () => bindAll t rest

def place (rule : Rule) : Session (Except RequestError RuleHandle) :=
  .ask (.createRule rule.toEntry) fun
    | .error e => .done (.error (.engine e))
    | .ok r => (bindAll rule.table rule.references).bind fun
      | .ok () => .done (.ok r)
      | .error e => .ask (.deleteRule r) fun _ => .done (.error (.engine e))

def submit (s : Settings) (attrs : List Attribute) : Session (Except RequestError RuleHandle) :=
  (prepare s attrs).bind fun
    | .error e => .done (.error e)
    | .ok rule => place rule

def withdraw (r : RuleHandle) : Session (Except RequestError Unit) :=
  .ask (.deleteRule r) fun answer => .done (passOn answer)

end AccessList.Requests
