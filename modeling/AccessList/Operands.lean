import AccessList.Addresses
import AccessList.Handles

/-!
The values that a client puts into a match: scalars of three widths, addresses and objects.
A scalar can be read at any width, which keeps its low bits; an address or an object is read
only as what it is. A pattern is a value together with the mask of the bits that count.
-/
namespace AccessList.Operands

open Addresses Handles

/-- An IPv4 operand is the word as the client stores it, octets in opposite order. -/
inductive Operand
  | scalar8 (v : BitVec 8)
  | scalar16 (v : BitVec 16)
  | scalar32 (v : BitVec 32)
  | ipv4 (word : BitVec 32)
  | ipv6 (a : Ipv6Address)
  | mac (a : MacAddress)
  | object (id : ObjectId)
  | objects (ids : List ObjectId)
  deriving DecidableEq

namespace Operand

def ofIpv4 (a : Ipv4Address) : Operand := .ipv4 (swapOctets a)

def scalar? : Operand → Option (BitVec 32)
  | .scalar8 v => some (v.setWidth 32)
  | .scalar16 v => some (v.setWidth 32)
  | .scalar32 v => some v
  | _ => none

/-- A scalar cut down to its low bits. -/
def low? (width : Nat) (o : Operand) : Option (BitVec width) :=
  o.scalar?.map (·.setWidth width)

def ipv4? : Operand → Option (BitVec 32)
  | .ipv4 w => some w
  | _ => none

def ipv6? : Operand → Option Ipv6Address
  | .ipv6 a => some a
  | _ => none

def mac? : Operand → Option MacAddress
  | .mac a => some a
  | _ => none

def object? : Operand → Option ObjectId
  | .object id => some id
  | _ => none

def objects? : Operand → Option (List ObjectId)
  | .objects ids => some ids
  | _ => none

end Operand

structure Pattern where
  value : Operand
  mask : Operand
  deriving DecidableEq

namespace Pattern

def ipv4 (a mask : Ipv4Address) : Pattern := ⟨.ofIpv4 a, .ofIpv4 mask⟩

/-- All addresses that share the leading bits; a length above 32 counts as 32. -/
def ipv4Network (a : Ipv4Address) (len : Nat) : Pattern :=
  ipv4 a (leadingMask 32 (min len 32))

def ipv6 (a mask : Ipv6Address) : Pattern := ⟨.ipv6 a, .ipv6 mask⟩

def mac (a mask : MacAddress) : Pattern := ⟨.mac a, .mac mask⟩

def exact8 (v : BitVec 8) : Pattern := ⟨.scalar8 v, .scalar8 (.allOnes 8)⟩

def exact16 (v : BitVec 16) : Pattern := ⟨.scalar16 v, .scalar16 (.allOnes 16)⟩

/-- An object has no bits to mask; its mask is null. -/
def object (id : ObjectId) : Pattern := ⟨.object id, .object 0⟩

def objects (ids : List ObjectId) : Pattern := ⟨.objects ids, .objects []⟩

end Pattern

end AccessList.Operands
