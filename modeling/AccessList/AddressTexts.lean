import AccessList.Addresses
import AccessList.Numerals

/-!
The written forms of addresses. An IPv4 address is four decimal octets between dots, an IPv6
address eight groups of hexadecimal digits between colons, where a double colon stands for
missing groups and a dotted quad for the last two, and a MAC address six hexadecimal octets
between colons or dashes. A network is an address and a count of its leading bits, after a
slash.
-/
namespace AccessList.AddressTexts

open Addresses Numerals

/-- The parts of a text between separators; a text without any is one part. -/
def splitAt (separates : Char → Bool) : List Char → List (List Char)
  | [] => [[]]
  | c :: rest =>
    if separates c then [] :: splitAt separates rest
    else
      match splitAt separates rest with
      | [] => [[c]]
      | part :: parts => (c :: part) :: parts

/-- The text before the first slash and the text after it, if there is one. -/
def cutSlash : List Char → List Char × Option (List Char)
  | [] => ([], none)
  | '/' :: rest => ([], some rest)
  | c :: rest => ((c :: (cutSlash rest).1), (cutSlash rest).2)

/-- The text before the first double colon and the text after it, if there is one. -/
def cutDoubleColon : List Char → List Char × Option (List Char)
  | ':' :: ':' :: rest => ([], some rest)
  | [] => ([], none)
  | c :: rest => ((c :: (cutDoubleColon rest).1), (cutDoubleColon rest).2)

/-- A decimal octet is written without leading zeros. -/
def octet? (cs : List Char) : Option UInt8 :=
  if cs = [] ∨ 3 < cs.length ∨ (cs.head? = some '0' ∧ 1 < cs.length) then none
  else
    match readDigits 10 255 0 cs with
    | .ok n => some (UInt8.ofNat n)
    | .error _ => none

def ipv4Octets? (cs : List Char) : Option (List UInt8) :=
  match splitAt (· = '.') cs with
  | [a, b, c, d] => [a, b, c, d].mapM octet?
  | _ => none

def ipv4? (cs : List Char) : Option Ipv4Address :=
  (ipv4Octets? cs).map .ofOctets

/-- A group is one to four hexadecimal digits, for two octets. -/
def groupOctets? (cs : List Char) : Option (List UInt8) :=
  if cs = [] ∨ 4 < cs.length then none
  else
    match readDigits 16 0xffff 0 cs with
    | .ok n => some (toOctets 2 n)
    | .error _ => none

/-- The octets of groups between colons. The last group may be a dotted quad where that is
allowed. -/
def groupsOctets? (dotted : Bool) : List (List Char) → Option (List UInt8)
  | [] => some []
  | [last] =>
    match groupOctets? last with
    | some octets => some octets
    | none => if dotted then ipv4Octets? last else none
  | group :: rest => do
    let octets ← groupOctets? group
    let more ← groupsOctets? dotted rest
    some (octets ++ more)

/-- No text at all is no groups. -/
def sideOctets? (dotted : Bool) : List Char → Option (List UInt8)
  | [] => some []
  | cs => groupsOctets? dotted (splitAt (· = ':') cs)

/-- A double colon stands for at least one group, and no dotted quad comes before it. -/
def ipv6Octets? (cs : List Char) : Option (List UInt8) :=
  match cutDoubleColon cs with
  | (all, none) => do
    let octets ← sideOctets? true all
    if octets.length = 16 then some octets else none
  | (front, some back) => do
    let front ← sideOctets? false front
    let back ← sideOctets? true back
    if front.length + back.length ≤ 14 then
      some (front ++ List.replicate (16 - front.length - back.length) 0 ++ back)
    else none

def ipv6? (cs : List Char) : Option Ipv6Address :=
  (ipv6Octets? cs).map .ofOctets

inductive MacError
  | tooShort
  | badOctet (part : List Char) (cause : NumeralError)
  | tooLong
  deriving DecidableEq

/-- Reads a number of octets from the parts of a text, each in its turn. -/
def macOctets : Nat → List (List Char) → Except MacError (List UInt8)
  | 0, [] => .ok []
  | 0, _ :: _ => .error .tooLong
  | _ + 1, [] => .error .tooShort
  | n + 1, part :: parts =>
    match read 16 255 part with
    | .error cause => .error (.badOctet part cause)
    | .ok b => (macOctets n parts).map (UInt8.ofNat b :: ·)

def isMacSeparator (c : Char) : Bool := c = ':' ∨ c = '-'

def mac (cs : List Char) : Except MacError MacAddress :=
  (macOctets 6 (splitAt isMacSeparator cs)).map .ofOctets

inductive LengthError
  | unreadable (text : List Char) (cause : NumeralError)
  | tooLong (len max : Nat)
  deriving DecidableEq

/-- The address text and the count of leading bits; without a slash all bits count. -/
def network (max : Nat) (cs : List Char) : Except LengthError (List Char × Nat) :=
  match cutSlash cs with
  | (address, none) => .ok (address, max)
  | (address, some text) =>
    match read 10 255 text with
    | .error cause => .error (.unreadable text cause)
    | .ok len => if max < len then .error (.tooLong len max) else .ok (address, len)

end AccessList.AddressTexts
