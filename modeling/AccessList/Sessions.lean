import AccessList.Errors
import AccessList.Rules

/-!
A session is a client's side of a dialogue with an engine: it ends with a result, or makes a
call and goes on in a way that depends on the answer. An engine answers every call and
changes its state. What a session does is fixed without any engine; running it against one
gives the result and the state in which the engine is left.
-/
namespace AccessList.Sessions

open Errors Fields Handles Rules

inductive Call
  | createTable (k : Kind)
  | deleteTable (t : TableHandle)
  | tableKind (t : TableHandle)
  | createRule (e : Entry)
  | deleteRule (r : RuleHandle)
  | bind (t : TableHandle) (object : ObjectId)
  deriving DecidableEq

/-- What a call gives when it succeeds. -/
abbrev Call.Result : Call → Type
  | .createTable _ => TableHandle
  | .tableKind _ => Kind
  | .createRule _ => RuleHandle
  | .deleteTable _ | .deleteRule _ | .bind _ _ => Unit

abbrev Answer (c : Call) : Type := Except EngineError c.Result

inductive Session (α : Type) : Type
  | done (a : α)
  | ask (c : Call) (next : Answer c → Session α)

/-- An engine with states in `σ`; any call may succeed or fail in any state. -/
structure Engine (σ : Type) where
  answer : (c : Call) → σ → Answer c × σ

namespace Session

variable {α β σ : Type}

def bind (s : Session α) (f : α → Session β) : Session β :=
  match s with
  | .done a => f a
  | .ask c next => .ask c fun answer => (next answer).bind f

def map (f : α → β) (s : Session α) : Session β := s.bind fun a => .done (f a)

/-- One session after another, a session for each element of a list. -/
def each (f : α → Session β) : List α → Session (List β)
  | [] => .done []
  | a :: rest => (f a).bind fun b => (each f rest).bind fun bs => .done (b :: bs)

def run (e : Engine σ) : Session α → σ → α × σ
  | .done a, s => (a, s)
  | .ask c next, s => run e (next (e.answer c s).1) (e.answer c s).2

/-- The calls that a session makes, in order. -/
def calls (e : Engine σ) : Session α → σ → List Call
  | .done _, _ => []
  | .ask c next, s => c :: calls e (next (e.answer c s).1) (e.answer c s).2

@[simp] theorem bind_done (a : α) (f : α → Session β) : (done a).bind f = f a := rfl

@[simp] theorem bind_ask (c : Call) (next : Answer c → Session α) (f : α → Session β) :
    (ask c next).bind f = .ask c fun answer => (next answer).bind f := rfl

@[simp] theorem run_done (e : Engine σ) (a : α) (s : σ) : (done a).run e s = (a, s) := rfl

@[simp] theorem run_ask (e : Engine σ) (c : Call) (next : Answer c → Session α) (s : σ) :
    (ask c next).run e s = (next (e.answer c s).1).run e (e.answer c s).2 := rfl

theorem run_bind (e : Engine σ) (p : Session α) (f : α → Session β) (s : σ) :
    (p.bind f).run e s = (f (p.run e s).1).run e (p.run e s).2 := by
  induction p generalizing s with
  | done a => rfl
  | ask c next ih => exact ih _ _

theorem calls_bind (e : Engine σ) (p : Session α) (f : α → Session β) (s : σ) :
    (p.bind f).calls e s = p.calls e s ++ (f (p.run e s).1).calls e (p.run e s).2 := by
  induction p generalizing s with
  | done a => rfl
  | ask c next ih => simpa [calls] using ih _ _

end Session

end AccessList.Sessions
