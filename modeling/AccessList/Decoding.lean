import AccessList.Documents

/-!
Reading typed values out of JSON documents. A record is an object, or an array of its fields
in their order, where fields at the end may be left out; unknown members are passed over and
a known one may not come twice. A choice is the name of a case, or an object with that name
and the value of the case.
-/
namespace AccessList.Decoding

open Documents

variable {α : Type}

def text? : Document → Option String
  | .text s => s
  | _ => none

/-- A whole number below a bound, written with digits only. -/
def natBelow? (bound : Nat) : Document → Option Nat
  | .number literal =>
    if literal.toList.all Char.isDigit then
      let n := literal.toList.foldl (fun n c => n * 10 + (c.toNat - '0'.toNat)) 0
      if n < bound then some n else none
    else none
  | _ => none

def uint32? (v : Document) : Option UInt32 :=
  (natBelow? UInt32.size v).map UInt32.ofNat

def uint64? (v : Document) : Option UInt64 :=
  (natBelow? UInt64.size v).map UInt64.ofNat

def list? (item? : Document → Option α) : Document → Option (List α)
  | .array items => items.mapM item?
  | _ => none

/-- Null stands for no value. -/
def nullable? (value? : Document → Option α) : Document → Option (Option α)
  | .null => some none
  | v => (value? v).map some

/-- The member under a key, if there is at most one. -/
def member? (members : List (Option String × Document)) (key : String) :
    Option (Option Document) :=
  match members.filter fun m => m.1 = some key with
  | [] => some none
  | [m] => some (some m.2)
  | _ => none

/-- The fields of a record in the order of their names, each present or not. -/
def record? (names : List String) : Document → Option (List (Option Document))
  | .array items =>
    if items.length ≤ names.length then
      some (items.map some ++ List.replicate (names.length - items.length) none)
    else none
  | .object members =>
    if members.all fun m => m.1.isSome then names.mapM (member? members) else none
  | _ => none

def required? (value? : Document → Option α) (field : Option Document) : Option α :=
  field.bind value?

def defaulted? (value? : Document → Option α) (default : α) : Option Document → Option α
  | none => some default
  | some v => value? v

/-- The name of the case and its value, if one is given. -/
def choice? : Document → Option (String × Option Document)
  | .text (some name) => some (name, none)
  | .object [(some name, v)] => some (name, some v)
  | _ => none

/-- A case without a value may be given null. -/
def bare? : Option Document → Option Unit
  | none | some .null => some ()
  | _ => none

end AccessList.Decoding
