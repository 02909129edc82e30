import AccessList.Fields
import AccessList.Qualifiers

/-!
What a list of each kind does with a qualifier: refuse it, apply the table to the object it
names, or match one of the fields of the list. A kind holds a set of qualifiers when it
refuses none of them, and the kind that fits the set is the first that holds it.
-/
namespace AccessList.Roles

open Fields Qualifiers

inductive Role
  | refused
  | binding
  | keyed (f : Field)
  deriving DecidableEq, Repr

def ipv4Field? : Qualifier → Option Ipv4Field
  | .srcIp => some .source
  | .dstIp => some .destination
  | .l4SrcPort => some .sourcePort
  | .l4DstPort => some .destinationPort
  | .etherType => some .etherType
  | .ipProtocol => some .protocol
  | .dscp => some .dscp
  | .ttl => some .ttl
  | .tos => some .tos
  | .ipFlags => some .ipFlags
  | .tcpFlags => some .tcpFlags
  | _ => none

def ipv6Field? : Qualifier → Option Ipv6Field
  | .srcIpv6 => some .source
  | .dstIpv6 => some .destination
  | .l4SrcPort => some .sourcePort
  | .l4DstPort => some .destinationPort
  | .etherType => some .etherType
  | .ipProtocol => some .protocol
  | .ttl => some .ttl
  | .tos => some .tos
  | .tcpFlags => some .tcpFlags
  | .ipv6FlowLabel => some .flowLabel
  | _ => none

def macField? : Qualifier → Option MacField
  | .srcMac => some .source
  | .dstMac => some .destination
  | .outerVlanPri => some .vlanPriority
  | .outerVlanCfi => some .vlanCfi
  | .etherType => some .etherType
  | _ => none

/-- The field of a list of this kind that a qualifier stands for. -/
def field? : Kind → Qualifier → Option Field
  | .ipv4, q => (ipv4Field? q).map .ipv4
  | .ipv6, q => (ipv6Field? q).map .ipv6
  | .mac, q => (macField? q).map .mac

def role (k : Kind) (q : Qualifier) : Role :=
  if q.isReference then .binding
  else
    match field? k q with
    | some f => .keyed f
    | none => .refused

theorem role_eq_binding_iff {k : Kind} {q : Qualifier} :
    role k q = .binding ↔ q.isReference = true := by
  cases h : q.isReference <;> simp [role, h]
  split <;> simp

theorem role_eq_keyed_iff {k : Kind} {q : Qualifier} {f : Field} :
    role k q = .keyed f ↔ field? k q = some f := by
  cases k <;> cases q <;> simp [role, Qualifier.isReference, field?, ipv4Field?, ipv6Field?,
    macField?]

theorem kind_of_field? {k : Kind} {q : Qualifier} {f : Field} (h : field? k q = some f) :
    f.kind = k := by
  cases k <;> simp only [field?, Option.map_eq_some_iff] at h <;>
    obtain ⟨_, _, rfl⟩ := h <;> rfl

def holds (k : Kind) (qs : List Qualifier) : Bool :=
  qs.all fun q => role k q ≠ .refused

theorem holds_iff {k : Kind} {qs : List Qualifier} :
    holds k qs = true ↔ ∀ q ∈ qs, role k q ≠ .refused := by
  simp [holds]

/-- The first kind that refuses none of the qualifiers. -/
def fitting? (qs : List Qualifier) : Option Kind :=
  Kind.all.find? fun k => holds k qs

end AccessList.Roles
