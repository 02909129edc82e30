import AccessList.AddressTexts
import AccessList.Operands
import AccessList.Qualifiers

/-!
A match as a scenario writes it: a qualifier, a value and perhaps a mask, each a number, a
list of numbers or a text. The qualifier says how the value is understood: as an address with
a count of leading bits, as objects, or as a number of 32 bits.
-/
namespace AccessList.Matches

open AddressTexts Addresses Handles Numerals Operands Qualifiers

inductive Literal
  | number (n : UInt64)
  | list (ns : List UInt64)
  | text (s : String)
  deriving DecidableEq

/-- The spelling of a literal in error texts. -/
def Literal.label : Literal → String
  | .number n => "Number(" ++ toString n ++ ")"
  | .list ns => "List([" ++ ", ".intercalate (ns.map toString) ++ "])"
  | .text s => "Text(" ++ s ++ ")"

structure MatchRequest where
  qualifier : Qualifier
  value : Literal
  mask : Option Literal
  deriving DecidableEq

/-- Why a value cannot be understood. -/
inductive ValueError
  | notText (l : Literal)
  | length (cause : LengthError)
  | ipv4
  | ipv6
  | mac (text : String) (cause : MacError)
  | numeral (cause : NumeralError)
  | listOfNumbers
  deriving DecidableEq

def lengthText : LengthError → String
  | .unreadable text cause => "bad prefix length " ++ String.ofList text ++ ": " ++ cause.message
  | .tooLong len max => "prefix length " ++ toString len ++ " exceeds " ++ toString max

def macText (text : String) : MacError → String
  | .tooShort => "MAC address " ++ text ++ " is too short"
  | .badOctet part cause => "bad MAC byte " ++ String.ofList part ++ ": " ++ cause.message
  | .tooLong => "MAC address " ++ text ++ " is too long"

def ValueError.message : ValueError → String
  | .notText l => "expected a string, got " ++ l.label
  | .length cause => lengthText cause
  | .ipv4 => "invalid IPv4 address syntax"
  | .ipv6 => "invalid IPv6 address syntax"
  | .mac text cause => macText text cause
  | .numeral cause => cause.message
  | .listOfNumbers => "expected a number, got a list"

def textOf : Literal → Except ValueError String
  | .text s => .ok s
  | l => .error (.notText l)

def maxScalar : Nat := UInt32.size - 1

/-- Hexadecimal after `0x`, decimal otherwise. -/
def scalarText : List Char → Except NumeralError Nat
  | '0' :: 'x' :: cs | '0' :: 'X' :: cs => read 16 maxScalar cs
  | cs => read 10 maxScalar cs

def scalar : Literal → Except ValueError (BitVec 32)
  | .number n =>
    if n.toNat ≤ maxScalar then .ok (BitVec.ofNat 32 n.toNat) else .error (.numeral .tooLarge)
  | .list _ => .error .listOfNumbers
  | .text s =>
    match scalarText s.toList with
    | .ok n => .ok (BitVec.ofNat 32 n)
    | .error cause => .error (.numeral cause)

def ipv4Of (text : List Char) : Except ValueError Ipv4Address :=
  match ipv4? text with
  | some a => .ok a
  | none => .error .ipv4

def ipv6Of (text : List Char) : Except ValueError Ipv6Address :=
  match ipv6? text with
  | some a => .ok a
  | none => .error .ipv6

def macOf (text : String) : Except ValueError MacAddress :=
  match mac text.toList with
  | .ok a => .ok a
  | .error cause => .error (.mac text cause)

def networkOf (max : Nat) (text : String) : Except ValueError (List Char × Nat) :=
  match network max text.toList with
  | .ok found => .ok found
  | .error cause => .error (.length cause)

/-- A mask of its own takes the place of the one that the leading bits give. -/
def ipv4Pattern (value : Literal) (mask : Option Literal) : Except ValueError Pattern := do
  let (text, len) ← networkOf 32 (← textOf value)
  let a ← ipv4Of text
  match mask with
  | none => .ok (.ipv4 a (leadingMask 32 len))
  | some l => do
    let mask ← ipv4Of (← textOf l).toList
    .ok (.ipv4 a mask)

def ipv6Pattern (value : Literal) (mask : Option Literal) : Except ValueError Pattern := do
  let (text, len) ← networkOf 128 (← textOf value)
  let a ← ipv6Of text
  match mask with
  | none => .ok (.ipv6 a (leadingMask 128 len))
  | some l => do
    let mask ← ipv6Of (← textOf l).toList
    .ok (.ipv6 a mask)

def macPattern (value : Literal) (mask : Option Literal) : Except ValueError Pattern := do
  let a ← macOf (← textOf value)
  match mask with
  | none => .ok (.mac a (BitVec.allOnes 48))
  | some l => do
    let mask ← macOf (← textOf l)
    .ok (.mac a mask)

def scalarPattern (value : Literal) (mask : Option Literal) : Except ValueError Pattern := do
  let v ← scalar value
  match mask with
  | none => .ok ⟨.scalar32 v, .scalar32 (BitVec.allOnes 32)⟩
  | some l => do
    let mask ← scalar l
    .ok ⟨.scalar32 v, .scalar32 mask⟩

/-- A list names objects whatever the qualifier, and a number does where the qualifier stands
for one; neither has a mask. -/
def MatchRequest.pattern (m : MatchRequest) : Except ValueError Pattern :=
  match m.qualifier with
  | .srcIp | .dstIp => ipv4Pattern m.value m.mask
  | .srcIpv6 | .dstIpv6 => ipv6Pattern m.value m.mask
  | .srcMac | .dstMac => macPattern m.value m.mask
  | q =>
    match m.value with
    | .list ids => .ok (.objects ids)
    | .number n => if q.isReference then .ok (.object n) else scalarPattern m.value m.mask
    | .text _ => scalarPattern m.value m.mask

end AccessList.Matches
