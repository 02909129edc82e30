import AccessList.Keys

/-!
The classes of operands that layouts tell apart. Scalars of every width are one class, and
each kind of address is a class of its own. A layout reads the operands of exactly one class,
for values and for masks alike, so a pattern makes a key exactly when both of its operands
are of the class of the field. Objects are in classes that no layout reads.
-/
namespace AccessList.Proofs.OperandClasses

open Errors Fields Keys Operands

inductive OperandClass
  | scalar
  | ipv4
  | ipv6
  | mac
  | object
  | objects
  deriving DecidableEq, Repr

def classOf : Operand → OperandClass
  | .scalar8 _ | .scalar16 _ | .scalar32 _ => .scalar
  | .ipv4 _ => .ipv4
  | .ipv6 _ => .ipv6
  | .mac _ => .mac
  | .object _ => .object
  | .objects _ => .objects

def classRead : Layout → OperandClass
  | .octet | .halfword | .word | .vlanTag => .scalar
  | .ipv4Address => .ipv4
  | .ipv6Address => .ipv6
  | .macAddress => .mac

theorem valueCell?_isSome_iff (l : Layout) (o : Operand) :
    (valueCell? l o).isSome ↔ classOf o = classRead l := by
  cases l <;> cases o <;> simp [valueCell?, classOf, classRead, Operand.low?,
    Operand.scalar?, Operand.ipv4?, Operand.ipv6?, Operand.mac?]

theorem maskCell?_isSome_iff (l : Layout) (o : Operand) :
    (maskCell? l o).isSome ↔ classOf o = classRead l := by
  cases l with
  | vlanTag =>
    cases o <;> simp [maskCell?, classOf, classRead, Operand.low?, Operand.scalar?]
  | octet | halfword | word | ipv4Address | ipv6Address | macAddress =>
    simpa only [maskCell?] using valueCell?_isSome_iff _ o

/-- Both operands of a pattern are of the class that the field reads. -/
def Readable (f : Field) (p : Pattern) : Prop :=
  classOf p.value = classRead f.layout ∧ classOf p.mask = classRead f.layout

theorem exists_ofPattern_iff (f : Field) (p : Pattern) :
    (∃ key, Key.ofPattern f p = .ok key) ↔ Readable f p := by
  have hvalue := valueCell?_isSome_iff f.layout p.value
  have hmask := maskCell?_isSome_iff f.layout p.mask
  unfold Readable Key.ofPattern
  cases hv : valueCell? f.layout p.value with
  | none => simp_all
  | some value =>
    cases hm : maskCell? f.layout p.mask with
    | none => simp_all
    | some mask => simp_all

theorem ofPattern_eq_ok_iff {f : Field} {p : Pattern} {key : Key} :
    Key.ofPattern f p = .ok key ↔
      key.field = f ∧ valueCell? f.layout p.value = some key.value ∧
        maskCell? f.layout p.mask = some key.mask := by
  obtain ⟨field, value, mask⟩ := key
  unfold Key.ofPattern
  cases valueCell? f.layout p.value with
  | none => simp
  | some value =>
    cases maskCell? f.layout p.mask with
    | none => simp
    | some mask => simp [eq_comm]

/-- The mask is to blame only where the value can be read. -/
theorem ofPattern_eq_error_iff {f : Field} {p : Pattern} {cause : RequestError} :
    Key.ofPattern f p = .error cause ↔
      classOf p.value ≠ classRead f.layout ∧ cause = .wrongOperand (.field f) (.value f.layout) ∨
      classOf p.value = classRead f.layout ∧ classOf p.mask ≠ classRead f.layout ∧
        cause = .wrongOperand (.field f) (.mask f.layout) := by
  rw [Ne, Ne, ← valueCell?_isSome_iff, ← maskCell?_isSome_iff]
  unfold Key.ofPattern
  cases valueCell? f.layout p.value with
  | none => simp [@eq_comm _ cause]
  | some value =>
    cases maskCell? f.layout p.mask with
    | none => simp [@eq_comm _ cause]
    | some mask => simp

end AccessList.Proofs.OperandClasses
