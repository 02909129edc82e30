import AccessList.Attributes
import AccessList.Limits

/-!
Rules in the engine's terms. An entry is what the engine stores; a rule is an entry together
with the objects to which its table is to be applied, in the order in which that is done:
the last one named first. A rule is made from the effects of its attributes: the keys in
their order, the last priority, the last verdict and all objects.
-/
namespace AccessList.Rules

open Attributes Errors Fields Handles Keys Limits Verdicts

structure Entry where
  table : TableHandle
  priority : UInt32
  keys : List Key
  verdict : Verdict
  deriving DecidableEq

structure Rule extends Entry where
  kind : Kind
  references : List ObjectId
  deriving DecidableEq

/-- Objects to bind, the last one named first. -/
def bindingOrder (named : List (List ObjectId)) : List ObjectId :=
  named.flatten.reverse

/-- The effects of a list of attributes, when `count` keys precede it. The first attribute
that is an error, or one key too many, ends the walk. -/
def effectsFrom (k : Kind) (maxKeys count : Nat) :
    List Attribute → Except RequestError (List Effect)
  | [] => .ok []
  | a :: rest =>
    match a.effect k with
    | .error e => .error e
    | .ok effect =>
      if effect.key?.isSome && maxKeys ≤ count then .error (.tooManyKeys maxKeys)
      else
        (effectsFrom k maxKeys (count + effect.key?.toList.length) rest).map (effect :: ·)

def effects (k : Kind) (maxKeys : Nat) (attrs : List Attribute) :
    Except RequestError (List Effect) :=
  effectsFrom k maxKeys 0 attrs

namespace Rule

def ofEffects (t : TableHandle) (k : Kind) (es : List Effect) : Rule where
  table := t
  kind := k
  priority := (es.filterMap Effect.priority?).getLast?.getD 0
  keys := es.filterMap Effect.key?
  verdict := (es.filterMap Effect.verdict?).getLast?.getD .nop
  references := bindingOrder (es.map Effect.objects)

/-- The rule that a list of attributes describes on a table of the given kind. -/
def ofAttributes (s : Settings) (t : TableHandle) (k : Kind) (attrs : List Attribute) :
    Except RequestError Rule :=
  match effects k s.maxKeys attrs with
  | .error e => .error e
  | .ok es =>
    let rule := ofEffects t k es
    if rule.keys = [] ∧ s.keyless = .rejected then .error .noKeys else .ok rule

end Rule

end AccessList.Rules
