import AccessList.Errors
import AccessList.Operands

/-!
A key is one match of a rule as the engine holds it: a field, and a cell each for the value
and the mask. The layout of the field says which operands it takes and which cells it makes
of them: a scalar is cut down to the width of the cell, an IPv4 word has its octets swapped,
other addresses are kept as they are.
-/
namespace AccessList.Keys

open Addresses Errors Fields Operands

inductive Cell
  | bits8 (v : BitVec 8)
  | bits16 (v : BitVec 16)
  | bits32 (v : BitVec 32)
  | mac (a : MacAddress)
  | ipv6 (a : Ipv6Address)
  deriving DecidableEq

structure Key where
  field : Field
  value : Cell
  mask : Cell
  deriving DecidableEq

/-- The cell for a value, if the operand is one that the layout takes. -/
def valueCell? : Layout → Operand → Option Cell
  | .octet, o | .vlanTag, o => (o.low? 8).map .bits8
  | .halfword, o => (o.low? 16).map .bits16
  | .word, o => o.scalar?.map .bits32
  | .ipv4Address, o => o.ipv4?.map (.bits32 <| swapOctets ·)
  | .ipv6Address, o => o.ipv6?.map .ipv6
  | .macAddress, o => o.mac?.map .mac

/-- The cell for a mask: that of a VLAN tag has two octets, of which the upper one is zero. -/
def maskCell? : Layout → Operand → Option Cell
  | .vlanTag, o => (o.low? 8).map (.bits16 <| ·.setWidth 16)
  | l, o => valueCell? l o

/-- A pattern read for a field. When value and mask are both wrong the value is named. -/
def Key.ofPattern (f : Field) (p : Pattern) : Except RequestError Key :=
  match valueCell? f.layout p.value with
  | none => .error (.wrongOperand (.field f) (.value f.layout))
  | some value =>
    match maskCell? f.layout p.mask with
    | none => .error (.wrongOperand (.field f) (.mask f.layout))
    | some mask => .ok ⟨f, value, mask⟩

theorem Key.field_of_ofPattern {f : Field} {p : Pattern} {key : Key}
    (h : Key.ofPattern f p = .ok key) : key.field = f := by
  unfold Key.ofPattern at h
  split at h
  · simp at h
  · split at h
    · simp at h
    · cases h
      rfl

/-- A list has no key for the field of another kind, whatever the pattern. -/
def keyOn (k : Kind) (f : Field) (p : Pattern) : Except RequestError (Option Key) :=
  if f.kind = k then (Key.ofPattern f p).map some else .ok none

end AccessList.Keys
