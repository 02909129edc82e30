/-!
Handles name the tables and rules that an engine stores. A handle carries in its type which
of the two it names, so a rule handle never stands where a table is meant. Objects to which
a table is applied (interfaces, bundles, VLANs) come from outside and stay bare numbers.
-/
namespace AccessList.Handles

/-- Zero names no object. -/
abbrev ObjectId := UInt64

inductive Stored
  | table
  | rule
  deriving DecidableEq, Repr

structure Handle (o : Stored) where
  raw : UInt64
  deriving DecidableEq, Repr

abbrev TableHandle := Handle .table

abbrev RuleHandle := Handle .rule

/-- Lower-case hexadecimal digits after `0x`, without padding. -/
def hexText (n : UInt64) : String :=
  "0x" ++ String.ofList (Nat.toDigits 16 n.toNat)

def Stored.name : Stored → String
  | .table => "AclTable"
  | .rule => "AclRule"

namespace Handle

/-- The null handle names nothing. -/
def ofRaw? {o : Stored} (raw : UInt64) : Option (Handle o) :=
  if raw = 0 then none else some ⟨raw⟩

theorem ofRaw?_eq_some_iff {o : Stored} {raw : UInt64} {h : Handle o} :
    ofRaw? raw = some h ↔ raw ≠ 0 ∧ h.raw = raw := by
  obtain ⟨r⟩ := h
  by_cases hz : raw = 0 <;> simp [ofRaw?, hz, eq_comm]

theorem ofRaw?_raw {o : Stored} {h : Handle o} (hz : h.raw ≠ 0) :
    ofRaw? h.raw = some h :=
  ofRaw?_eq_some_iff.mpr ⟨hz, rfl⟩

def text {o : Stored} (h : Handle o) : String := hexText h.raw

/-- The text together with the name of what the handle stands for. -/
def described {o : Stored} (h : Handle o) : String :=
  o.name ++ "(" ++ h.text ++ ")"

end Handle

end AccessList.Handles
