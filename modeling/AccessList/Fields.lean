import AccessList.Casing

/-!
The three kinds of access list and the packet fields that a list of each kind can match.
Each kind has fields of its own, and each field has a layout: what its cells in the list
hold. The layout alone decides how a value is read for the field.
-/
namespace AccessList.Fields

open Casing

inductive Kind
  | ipv4
  | ipv6
  | mac
  deriving DecidableEq, Repr

namespace Kind

/-- In the order in which a kind is looked for. -/
def all : List Kind := [.ipv4, .ipv6, .mac]

/-- The name that a client uses. -/
def name : Kind → String
  | .ipv4 => "IPV4"
  | .ipv6 => "IPV6"
  | .mac => "MAC"

/-- The name that the engine uses. -/
def listName : Kind → String
  | .ipv4 => "IP"
  | .ipv6 => "IPV6"
  | .mac => "MAC"

theorem mem_all (k : Kind) : k ∈ all := by
  cases k <;> simp [all]

end Kind

inductive Ipv4Field
  | source
  | destination
  | protocol
  | sourcePort
  | destinationPort
  | icmpType
  | icmpCode
  | tcpFlags
  | ttl
  | etherType
  | dscp
  | ipFlags
  | tos
  | fragment
  deriving DecidableEq, Repr

inductive Ipv6Field
  | source
  | destination
  | protocol
  | sourcePort
  | destinationPort
  | icmpType
  | icmpCode
  | tcpFlags
  | ttl
  | etherType
  | tos
  | flowLabel
  deriving DecidableEq, Repr

inductive MacField
  | etherType
  | source
  | destination
  | vlanPriority
  | vlanCfi
  deriving DecidableEq, Repr

inductive Field
  | ipv4 (f : Ipv4Field)
  | ipv6 (f : Ipv6Field)
  | mac (f : MacField)
  deriving DecidableEq, Repr

/-- A VLAN tag field is one octet under a mask of two. -/
inductive Layout
  | octet
  | halfword
  | word
  | ipv4Address
  | ipv6Address
  | macAddress
  | vlanTag
  deriving DecidableEq, Repr

namespace Ipv4Field

def all : List Ipv4Field :=
  [.source, .destination, .protocol, .sourcePort, .destinationPort, .icmpType, .icmpCode,
    .tcpFlags, .ttl, .etherType, .dscp, .ipFlags, .tos, .fragment]

def name : Ipv4Field → String
  | .source => "IPV4_SRC"
  | .destination => "IPV4_DEST"
  | .protocol => "IP_PROTO"
  | .sourcePort => "L4_SOURCE_PORT"
  | .destinationPort => "L4_DEST_PORT"
  | .icmpType => "ICMP_TYPE"
  | .icmpCode => "ICMP_CODE"
  | .tcpFlags => "TCP_FLAGS"
  | .ttl => "TTL"
  | .etherType => "ETH_TYPE"
  | .dscp => "DSCP"
  | .ipFlags => "IP_FLAGS"
  | .tos => "TOS"
  | .fragment => "IP_FRAGMENT"

/-- The protocol number takes two octets, although it fits in one. -/
def layout : Ipv4Field → Layout
  | .source | .destination => .ipv4Address
  | .protocol | .sourcePort | .destinationPort | .etherType => .halfword
  | .icmpType | .icmpCode | .tcpFlags | .ttl => .octet
  | .dscp | .ipFlags | .tos | .fragment => .octet

end Ipv4Field

namespace Ipv6Field

def all : List Ipv6Field :=
  [.source, .destination, .protocol, .sourcePort, .destinationPort, .icmpType, .icmpCode,
    .tcpFlags, .ttl, .etherType, .tos, .flowLabel]

def name : Ipv6Field → String
  | .source => "IPV6_SRC"
  | .destination => "IPV6_DEST"
  | .protocol => "IP_PROTO"
  | .sourcePort => "L4_SOURCE_PORT"
  | .destinationPort => "L4_DEST_PORT"
  | .icmpType => "ICMP_TYPE"
  | .icmpCode => "ICMP_CODE"
  | .tcpFlags => "TCP_FLAGS"
  | .ttl => "TTL"
  | .etherType => "ETH_TYPE"
  | .tos => "TOS"
  | .flowLabel => "FLOW_LABEL"

def layout : Ipv6Field → Layout
  | .source | .destination => .ipv6Address
  | .protocol | .sourcePort | .destinationPort | .etherType => .halfword
  | .icmpType | .icmpCode | .tcpFlags | .ttl | .tos => .octet
  | .flowLabel => .word

end Ipv6Field

namespace MacField

def all : List MacField :=
  [.etherType, .source, .destination, .vlanPriority, .vlanCfi]

def name : MacField → String
  | .etherType => "ETH_TYPE"
  | .source => "SOURCE_MAC"
  | .destination => "DEST_MAC"
  | .vlanPriority => "VLAN_PRI"
  | .vlanCfi => "VLAN_CFI"

def layout : MacField → Layout
  | .etherType => .halfword
  | .source | .destination => .macAddress
  | .vlanPriority | .vlanCfi => .vlanTag

end MacField

namespace Field

/-- The kind of list that has the field. -/
def kind : Field → Kind
  | .ipv4 _ => .ipv4
  | .ipv6 _ => .ipv6
  | .mac _ => .mac

def name : Field → String
  | .ipv4 f => f.name
  | .ipv6 f => f.name
  | .mac f => f.name

def layout : Field → Layout
  | .ipv4 f => f.layout
  | .ipv6 f => f.layout
  | .mac f => f.layout

/-- The name as error texts give it, after the kind of list. -/
def label (f : Field) : String :=
  f.kind.listName ++ ":" ++ capitalized f.name

def all : List Field :=
  Ipv4Field.all.map .ipv4 ++ Ipv6Field.all.map .ipv6 ++ MacField.all.map .mac

theorem mem_all (f : Field) : f ∈ all := by
  rcases f with f | f | f <;> cases f <;> decide

end Field

end AccessList.Fields
