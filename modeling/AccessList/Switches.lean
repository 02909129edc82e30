import AccessList.Registries
import AccessList.Sessions

/-!
A switch that lives in memory: the tables and the rules it stores, how many handles it has
given out, and the failures that are armed. It enforces what a real one would: a rule needs
a live table whose kind has all its keys, and a table that still holds rules stays. An armed
failure strikes the next call of its operation, and only that one.
-/
namespace AccessList.Switches

open Errors Fields Handles Registries Rules Sessions Statuses

/-- The operations that can be made to fail. -/
inductive Operation
  | createTable
  | deleteTable
  | createRule
  | deleteRule
  | bind
  deriving DecidableEq, Repr

structure Table where
  kind : Kind
  references : List ObjectId
  deriving DecidableEq

structure Switch where
  issued : Nat
  tables : Registry TableHandle Table
  rules : Registry RuleHandle Entry
  armed : Operation → Option EngineStatus

/-- The mark of a handle's object above the bits of its number. -/
def mark : Stored → Nat
  | .table => 0x11
  | .rule => 0x12

/-- The handle with a given number. Marks and numbers overlap from 2 to the 26th on. -/
def handle (o : Stored) (number : Nat) : Handle o :=
  ⟨UInt64.ofNat (mark o <<< 26 ||| number)⟩

namespace Switch

def empty : Switch := ⟨0, Registries.empty, Registries.empty, fun _ => none⟩

/-- Makes the next call of an operation fail. -/
def arm (s : Switch) (op : Operation) (status : EngineStatus) : Switch :=
  { s with armed := fun o => if o = op then some status else s.armed o }

def disarm (s : Switch) (op : Operation) : Switch :=
  { s with armed := fun o => if o = op then none else s.armed o }

/-- The failure that strikes a call of an operation; it is used up. -/
def strike (s : Switch) (op : Operation) : Except EngineError Unit × Switch :=
  match s.armed op with
  | none => (.ok (), s)
  | some status => (outcome status, s.disarm op)

/-- The references of a dead table are none. -/
def references (s : Switch) (t : TableHandle) : List ObjectId :=
  ((s.tables.get? t).map Table.references).getD []

def createTable (k : Kind) (s : Switch) : Except EngineError TableHandle × Switch :=
  match s.strike .createTable with
  | (.error e, s) => (.error e, s)
  | (.ok (), s) =>
    let t := handle .table (s.issued + 1)
    (.ok t, { s with issued := s.issued + 1, tables := s.tables.insert t ⟨k, []⟩ })

def deleteTable (t : TableHandle) (s : Switch) : Except EngineError Unit × Switch :=
  match s.strike .deleteTable with
  | (.error e, s) => (.error e, s)
  | (.ok (), s) =>
    if (s.tables.get? t).isNone then (.error (.invalidHandle t.raw), s)
    else if s.rules.values.any fun e => e.table = t then
      (.error (.resourceInUse ("ACL table " ++ t.text)), s)
    else (.ok (), { s with tables := s.tables.erase t })

def tableKind (t : TableHandle) (s : Switch) : Except EngineError Kind × Switch :=
  match s.tables.get? t with
  | none => (.error (.invalidHandle t.raw), s)
  | some table => (.ok table.kind, s)

/-- Why a live table of a kind does not take an entry. -/
def refusal? (k : Kind) (e : Entry) : Option String :=
  match e.keys.find? fun key => key.field.kind ≠ k with
  | some key =>
    some ("field " ++ key.field.label ++ " does not belong to " ++ k.listName ++ " table " ++
      e.table.text)
  | none =>
    if e.verdict.action = .redirect ∧ e.verdict.target = none then
      some "redirect without target"
    else none

def createRule (e : Entry) (s : Switch) : Except EngineError RuleHandle × Switch :=
  match s.strike .createRule with
  | (.error err, s) => (.error err, s)
  | (.ok (), s) =>
    match s.tables.get? e.table with
    | none => (.error (.invalidHandle e.table.raw), s)
    | some table =>
      match refusal? table.kind e with
      | some reason => (.error (.invalidParameter reason), s)
      | none =>
        let r := handle .rule (s.issued + 1)
        (.ok r, { s with issued := s.issued + 1, rules := s.rules.insert r e })

def deleteRule (r : RuleHandle) (s : Switch) : Except EngineError Unit × Switch :=
  match s.strike .deleteRule with
  | (.error e, s) => (.error e, s)
  | (.ok (), s) =>
    if (s.rules.get? r).isNone then (.error (.invalidHandle r.raw), s)
    else (.ok (), { s with rules := s.rules.erase r })

def bind (t : TableHandle) (object : ObjectId) (s : Switch) :
    Except EngineError Unit × Switch :=
  match s.strike .bind with
  | (.error e, s) => (.error e, s)
  | (.ok (), s) =>
    if object = 0 then (.error (.invalidHandle object), s)
    else
      match s.tables.get? t with
      | none => (.error (.invalidHandle t.raw), s)
      | some table =>
        let table := { table with references := table.references ++ [object] }
        (.ok (), { s with tables := s.tables.insert t table })

def answer : (c : Call) → Switch → Answer c × Switch
  | .createTable k => createTable k
  | .deleteTable t => deleteTable t
  | .tableKind t => tableKind t
  | .createRule e => createRule e
  | .deleteRule r => deleteRule r
  | .bind t object => bind t object

def engine : Engine Switch := ⟨answer⟩

end Switch

end AccessList.Switches
