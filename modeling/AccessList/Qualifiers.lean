import AccessList.Casing

/-!
The qualifiers by which a client describes tables and rules. Each has a fixed place in their
order and a name, and is read from text without regard to case. A qualifier that stands for
an interface or a VLAN says where a table applies rather than what a packet holds.
-/
namespace AccessList.Qualifiers

open Casing

inductive Qualifier
  | srcIpv6
  | dstIpv6
  | srcMac
  | dstMac
  | srcIp
  | dstIp
  | inPorts
  | outPorts
  | inPort
  | outPort
  | outerVlanId
  | outerVlanPri
  | outerVlanCfi
  | innerVlanId
  | innerVlanPri
  | innerVlanCfi
  | l4SrcPort
  | l4DstPort
  | etherType
  | ipProtocol
  | dscp
  | ecn
  | ttl
  | tos
  | ipFlags
  | tcpFlags
  | ipType
  | ipFrag
  | ipv6FlowLabel
  | tc
  deriving DecidableEq, Repr

namespace Qualifier

def all : List Qualifier :=
  [.srcIpv6, .dstIpv6, .srcMac, .dstMac, .srcIp, .dstIp, .inPorts, .outPorts, .inPort,
    .outPort, .outerVlanId, .outerVlanPri, .outerVlanCfi, .innerVlanId, .innerVlanPri,
    .innerVlanCfi, .l4SrcPort, .l4DstPort, .etherType, .ipProtocol, .dscp, .ecn, .ttl, .tos,
    .ipFlags, .tcpFlags, .ipType, .ipFrag, .ipv6FlowLabel, .tc]

def index (q : Qualifier) : Nat := all.idxOf q

def name : Qualifier → String
  | .srcIpv6 => "SRC_IPV6"
  | .dstIpv6 => "DST_IPV6"
  | .srcMac => "SRC_MAC"
  | .dstMac => "DST_MAC"
  | .srcIp => "SRC_IP"
  | .dstIp => "DST_IP"
  | .inPorts => "IN_PORTS"
  | .outPorts => "OUT_PORTS"
  | .inPort => "IN_PORT"
  | .outPort => "OUT_PORT"
  | .outerVlanId => "OUTER_VLAN_ID"
  | .outerVlanPri => "OUTER_VLAN_PRI"
  | .outerVlanCfi => "OUTER_VLAN_CFI"
  | .innerVlanId => "INNER_VLAN_ID"
  | .innerVlanPri => "INNER_VLAN_PRI"
  | .innerVlanCfi => "INNER_VLAN_CFI"
  | .l4SrcPort => "L4_SRC_PORT"
  | .l4DstPort => "L4_DST_PORT"
  | .etherType => "ETHER_TYPE"
  | .ipProtocol => "IP_PROTOCOL"
  | .dscp => "DSCP"
  | .ecn => "ECN"
  | .ttl => "TTL"
  | .tos => "TOS"
  | .ipFlags => "IP_FLAGS"
  | .tcpFlags => "TCP_FLAGS"
  | .ipType => "IP_TYPE"
  | .ipFrag => "IP_FRAG"
  | .ipv6FlowLabel => "IPV6_FLOW_LABEL"
  | .tc => "TC"

/-- The spelling in lists of qualifiers inside error texts. -/
def label (q : Qualifier) : String := capitalized q.name

def isReference : Qualifier → Bool
  | .inPorts | .outPorts | .inPort | .outPort | .outerVlanId | .innerVlanId => true
  | _ => false

def ofText? (text : String) : Option Qualifier := find? name all text

def unknownText (text : String) : String := "Unknown ACL qualifier: " ++ text

def ofText : String → Except String Qualifier := readName name all unknownText

theorem mem_all (q : Qualifier) : q ∈ all := by
  cases q <;> decide

theorem all_index (q : Qualifier) : all[q.index]? = some q := by
  cases q <;> rfl

end Qualifier

end AccessList.Qualifiers
