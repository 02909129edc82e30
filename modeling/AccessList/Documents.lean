/-!
JSON values. Numbers stay as they are written, objects keep the order of their members and
may repeat a key. The strings of a value that is written are texts; those of a value that is
read may fail to be, which matters only where they are looked at.
-/
namespace AccessList.Documents

inductive Json (σ : Type) : Type
  | null
  | bool (b : Bool)
  | number (literal : String)
  | text (s : σ)
  | array (items : List (Json σ))
  | object (members : List (σ × Json σ))

/-- A value as it is read: a string that spells no text is nothing. -/
abbrev Document := Json (Option String)

namespace Json

variable {σ : Type}

def nat (n : Nat) : Json σ := .number (toString n)

def int (n : Int) : Json σ := .number (toString n)

/-- A member that is left out when there is nothing to say. -/
def optional (key : σ) (value : Option (Json σ)) : List (σ × Json σ) :=
  (value.map (key, ·)).toList

end Json

end AccessList.Documents
