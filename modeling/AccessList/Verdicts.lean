import AccessList.Casing
import AccessList.Handles

/-!
What a client asks to be done with a packet, and what the engine does with one. A verdict is
an engine action together with the object that packets are redirected to, if any.
-/
namespace AccessList.Verdicts

open Casing Handles

inductive PacketAction
  | forward
  | drop
  | copy
  | trap
  | log
  | deny
  deriving DecidableEq, Repr

namespace PacketAction

def all : List PacketAction := [.forward, .drop, .copy, .trap, .log, .deny]

def name : PacketAction → String
  | .forward => "FORWARD"
  | .drop => "DROP"
  | .copy => "COPY"
  | .trap => "TRAP"
  | .log => "LOG"
  | .deny => "DENY"

def ofText? (text : String) : Option PacketAction := find? name all text

def unknownText (text : String) : String := "Unknown packet action: " ++ text

def ofText : String → Except String PacketAction := readName name all unknownText

theorem mem_all (a : PacketAction) : a ∈ all := by
  cases a <;> decide

end PacketAction

inductive Action
  | nop
  | drop
  | permit
  | redirect
  | redirectToCpu
  | copyToCpu
  | floodToVlan
  deriving DecidableEq, Repr

namespace Action

def all : List Action :=
  [.nop, .drop, .permit, .redirect, .redirectToCpu, .copyToCpu, .floodToVlan]

def name : Action → String
  | .nop => "NOP"
  | .drop => "DROP"
  | .permit => "PERMIT"
  | .redirect => "REDIRECT"
  | .redirectToCpu => "REDIRECT_TO_CPU"
  | .copyToCpu => "COPY_TO_CPU"
  | .floodToVlan => "FLOOD_TO_VLAN"

end Action

structure Verdict where
  action : Action
  target : Option ObjectId
  deriving DecidableEq

namespace Verdict

def plain (a : Action) : Verdict := ⟨a, none⟩

/-- What is done with a packet when nothing is asked. -/
def nop : Verdict := plain .nop

def redirect (target : ObjectId) : Verdict := ⟨.redirect, some target⟩

def flood : Verdict := plain .floodToVlan

end Verdict

/-- Copies for a log and for the processor are the same copy. -/
def PacketAction.verdict : PacketAction → Verdict
  | .forward => .plain .permit
  | .drop | .deny => .plain .drop
  | .copy | .log => .plain .copyToCpu
  | .trap => .plain .redirectToCpu

end AccessList.Verdicts
