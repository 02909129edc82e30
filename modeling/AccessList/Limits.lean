/-!
What an operator can set: whether a rule may match every packet, and how many keys a rule
may have.
-/
namespace AccessList.Limits

inductive KeylessRules
  | rejected
  | allowed
  deriving DecidableEq, Repr

def KeylessRules.name : KeylessRules → String
  | .rejected => "reject"
  | .allowed => "allow_wildcard"

structure Settings where
  keyless : KeylessRules
  maxKeys : Nat
  deriving DecidableEq, Repr

/-- Room for every qualifier once, and no rule that matches every packet. -/
def standard : Settings := ⟨.rejected, 30⟩

end AccessList.Limits
