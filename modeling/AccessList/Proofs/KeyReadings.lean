import AccessList.Proofs.AttributeEffects
import AccessList.Proofs.LeadingBits

/-!
What a key says of the pattern it was read from. Each field prescribes the operands it takes,
how many low bits of a scalar count and the forms of its cells. A key has cells of these forms,
with the numbers that the operands have at that width, so two patterns give the same key
exactly when they agree on the bits that count, in their values and in their masks.
-/
namespace AccessList.Proofs.KeyReadings

open Addresses AttributeEffects Errors Fields Keys LeadingBits OperandClasses Operands

inductive CellForm
  | bits8
  | bits16
  | bits32
  | mac
  | ipv6
  deriving DecidableEq, Repr

def formOf : Cell → CellForm
  | .bits8 _ => .bits8
  | .bits16 _ => .bits16
  | .bits32 _ => .bits32
  | .mac _ => .mac
  | .ipv6 _ => .ipv6

def numberOf : Cell → Nat
  | .bits8 v => v.toNat
  | .bits16 v => v.toNat
  | .bits32 v => v.toNat
  | .mac a => a.toNat
  | .ipv6 a => a.toNat

theorem cell_eq_iff {c c' : Cell} :
    c = c' ↔ formOf c = formOf c' ∧ numberOf c = numberOf c' := by
  cases c <;> cases c' <;> simp [formOf, numberOf, BitVec.toNat_inj]

/-- Which operands a field takes, how many low bits count where these are scalars, and the
forms of its cells for values and for masks. -/
structure Prescription where
  operands : OperandClass
  width : Option Nat
  value : CellForm
  mask : CellForm
  deriving DecidableEq

/-- Protocols are given two octets, like ports and ether types. Only VLAN tags have masks that
are wider than their values. -/
def prescribed : Field → Prescription
  | .ipv4 .source | .ipv4 .destination => ⟨.ipv4, none, .bits32, .bits32⟩
  | .ipv6 .source | .ipv6 .destination => ⟨.ipv6, none, .ipv6, .ipv6⟩
  | .mac .source | .mac .destination => ⟨.mac, none, .mac, .mac⟩
  | .ipv4 .protocol | .ipv4 .sourcePort | .ipv4 .destinationPort | .ipv4 .etherType
  | .ipv6 .protocol | .ipv6 .sourcePort | .ipv6 .destinationPort | .ipv6 .etherType
  | .mac .etherType => ⟨.scalar, some 16, .bits16, .bits16⟩
  | .ipv6 .flowLabel => ⟨.scalar, some 32, .bits32, .bits32⟩
  | .mac .vlanPriority | .mac .vlanCfi => ⟨.scalar, some 8, .bits8, .bits16⟩
  | .ipv4 _ | .ipv6 _ => ⟨.scalar, some 8, .bits8, .bits8⟩

def ofLayout : Layout → Prescription
  | .octet => ⟨.scalar, some 8, .bits8, .bits8⟩
  | .halfword => ⟨.scalar, some 16, .bits16, .bits16⟩
  | .word => ⟨.scalar, some 32, .bits32, .bits32⟩
  | .vlanTag => ⟨.scalar, some 8, .bits8, .bits16⟩
  | .ipv4Address => ⟨.ipv4, none, .bits32, .bits32⟩
  | .ipv6Address => ⟨.ipv6, none, .ipv6, .ipv6⟩
  | .macAddress => ⟨.mac, none, .mac, .mac⟩

theorem ofLayout_layout (f : Field) : ofLayout f.layout = prescribed f := by
  rcases f with f | f | f <;> cases f <;> rfl

theorem classRead_layout (f : Field) : classRead f.layout = (prescribed f).operands := by
  rw [← ofLayout_layout]
  cases f.layout <;> rfl

/-- The number that a scalar of any width holds. -/
def scalarNumber? : Operand → Option Nat
  | .scalar8 v => some v.toNat
  | .scalar16 v => some v.toNat
  | .scalar32 v => some v.toNat
  | _ => none

/-- The number that an operand stands for: the low bits of a scalar where these count, and
the address otherwise. -/
def content? : Option Nat → Operand → Option Nat
  | some width, o => (scalarNumber? o).map (· % 2 ^ width)
  | none, .ipv4 word => some (swapOctets word).toNat
  | none, .ipv6 a => some a.toNat
  | none, .mac a => some a.toNat
  | none, _ => none

/-- Two operands of which the same bits count. -/
inductive Agree (width : Option Nat) : Operand → Operand → Prop
  | scalars {o o' : Operand} {bits n n' : Nat} (counted : width = some bits)
      (number : scalarNumber? o = some n) (number' : scalarNumber? o' = some n')
      (same : n % 2 ^ bits = n' % 2 ^ bits) : Agree width o o'
  | ipv4 (word : BitVec 32) : Agree width (.ipv4 word) (.ipv4 word)
  | ipv6 {a a' : Ipv6Address} (same : a.octets = a'.octets) : Agree width (.ipv6 a) (.ipv6 a')
  | mac {a a' : MacAddress} (same : a.octets = a'.octets) : Agree width (.mac a) (.mac a')

/-- A cell of this form that holds what the operand stands for. -/
def Holds (form : CellForm) (width : Option Nat) (o : Operand) (c : Cell) : Prop :=
  formOf c = form ∧ content? width o = some (numberOf c)

section Cells
variable {o o' : Operand} {c c' : Cell}

theorem scalarNumber?_eq (o : Operand) : scalarNumber? o = o.scalar?.map BitVec.toNat := by
  cases o <;> simp [scalarNumber?, Operand.scalar?] <;> omega

theorem content_of_low {width : Nat} {v : BitVec width} (h : o.low? width = some v) :
    content? (some width) o = some v.toNat := by
  obtain ⟨w, hw, rfl⟩ := Option.map_eq_some_iff.mp h
  rw [content?, scalarNumber?_eq, hw, BitVec.toNat_setWidth]
  rfl

theorem low_of_scalar {v : BitVec 32} (h : o.scalar? = some v) : o.low? 32 = some v := by
  rw [Operand.low?, h, Option.map_some, BitVec.setWidth_eq]

theorem holds_valueCell {l : Layout} (h : valueCell? l o = some c) :
    Holds (ofLayout l).value (ofLayout l).width o c := by
  cases l with
  | octet | halfword | vlanTag =>
    obtain ⟨v, hv, rfl⟩ := Option.map_eq_some_iff.mp h
    exact ⟨rfl, content_of_low hv⟩
  | word =>
    obtain ⟨v, hv, rfl⟩ := Option.map_eq_some_iff.mp h
    exact ⟨rfl, content_of_low (low_of_scalar hv)⟩
  | ipv4Address =>
    cases o with
    | ipv4 word =>
      cases h
      exact ⟨rfl, rfl⟩
    | _ => cases h
  | ipv6Address =>
    cases o with
    | ipv6 a =>
      cases h
      exact ⟨rfl, rfl⟩
    | _ => cases h
  | macAddress =>
    cases o with
    | mac a =>
      cases h
      exact ⟨rfl, rfl⟩
    | _ => cases h

theorem holds_maskCell {l : Layout} (h : maskCell? l o = some c) :
    Holds (ofLayout l).mask (ofLayout l).width o c := by
  cases l with
  | vlanTag =>
    obtain ⟨v, hv, rfl⟩ := Option.map_eq_some_iff.mp h
    have hsame : numberOf (.bits16 (v.setWidth 16)) = v.toNat :=
      BitVec.toNat_setWidth_of_le (by omega)
    exact ⟨rfl, by rw [hsame]; exact content_of_low hv⟩
  | octet | halfword | word | ipv4Address | ipv6Address | macAddress =>
    simp only [maskCell?] at h
    exact holds_valueCell h

end Cells

section Agreement
variable {o o' : Operand} {width : Option Nat} {n n' : Nat}

theorem swapOctets_inj {w w' : BitVec 32} (h : swapOctets w = swapOctets w') : w = w' := by
  rw [← swapOctets_swapOctets w, h, swapOctets_swapOctets]

theorem agree_scalars_iff {bits : Nat} (h : content? (some bits) o = some n)
    (h' : content? (some bits) o' = some n') : n = n' ↔ Agree (some bits) o o' := by
  obtain ⟨m, hm, rfl⟩ := Option.map_eq_some_iff.mp h
  obtain ⟨m', hm', rfl⟩ := Option.map_eq_some_iff.mp h'
  constructor
  · exact .scalars rfl hm hm'
  · intro hagree
    cases hagree with
    | scalars counted number number' same =>
      cases counted
      rw [hm] at number
      rw [hm'] at number'
      cases number
      cases number'
      exact same
    | _ => cases hm

/-- No bits of a scalar count where addresses are wanted. -/
theorem agree_of_address (h : Agree none o o') : content? none o = content? none o' := by
  cases h with
  | scalars counted => cases counted
  | ipv4 word => rfl
  | ipv6 same => rw [toOctets_toNat_injective (by omega) same]
  | mac same => rw [toOctets_toNat_injective (by omega) same]

theorem agree_addresses_iff (hclass : classOf o = classOf o') (h : content? none o = some n)
    (h' : content? none o' = some n') : n = n' ↔ Agree none o o' := by
  constructor
  · rintro rfl
    cases o with
    | ipv4 word =>
      cases o' with
      | ipv4 word' =>
        have hword := BitVec.eq_of_toNat_eq (Option.some.inj (h.trans h'.symm))
        rw [swapOctets_inj hword]
        exact .ipv4 word'
      | _ => cases hclass
    | ipv6 a =>
      cases o' with
      | ipv6 a' =>
        have ha : a = a' := BitVec.eq_of_toNat_eq (Option.some.inj (h.trans h'.symm))
        exact .ipv6 (congrArg Ipv6Address.octets ha)
      | _ => cases hclass
    | mac a =>
      cases o' with
      | mac a' =>
        have ha : a = a' := BitVec.eq_of_toNat_eq (Option.some.inj (h.trans h'.symm))
        exact .mac (congrArg MacAddress.octets ha)
      | _ => cases hclass
    | _ => cases h
  · intro hagree
    rw [agree_of_address hagree, h'] at h
    exact (Option.some.inj h).symm

/-- What two operands stand for is the same exactly when they agree on the bits that count. -/
theorem agree_iff (hclass : classOf o = classOf o') (h : content? width o = some n)
    (h' : content? width o' = some n') : n = n' ↔ Agree width o o' := by
  cases width with
  | some bits => exact agree_scalars_iff h h'
  | none => exact agree_addresses_iff hclass h h'

theorem holds_eq_iff {form : CellForm} {c c' : Cell} (hclass : classOf o = classOf o')
    (h : Holds form width o c) (h' : Holds form width o' c') : c = c' ↔ Agree width o o' := by
  rw [cell_eq_iff, ← agree_iff hclass h.2 h'.2]
  exact and_iff_right (h.1.trans h'.1.symm)

end Agreement

/-- A key that holds what a pattern says at the width of the field. -/
structure Reads (f : Field) (p : Pattern) (key : Key) : Prop where
  field : key.field = f
  value : Holds (prescribed f).value (prescribed f).width p.value key.value
  mask : Holds (prescribed f).mask (prescribed f).width p.mask key.mask

theorem reads_of_ofPattern {f : Field} {p : Pattern} {key : Key}
    (h : Key.ofPattern f p = .ok key) : Reads f p key := by
  obtain ⟨hfield, hvalue, hmask⟩ := ofPattern_eq_ok_iff.mp h
  refine ⟨hfield, ?_, ?_⟩
  · rw [← ofLayout_layout]
    exact holds_valueCell hvalue
  · rw [← ofLayout_layout]
    exact holds_maskCell hmask

theorem readable_iff {f : Field} {p : Pattern} :
    Readable f p ↔
      classOf p.value = (prescribed f).operands ∧ classOf p.mask = (prescribed f).operands := by
  unfold Readable
  rw [classRead_layout]

theorem readable_of_ofPattern {f : Field} {p : Pattern} {key : Key}
    (h : Key.ofPattern f p = .ok key) : Readable f p :=
  (exists_ofPattern_iff f p).mp ⟨key, h⟩

/-- Keys of one field differ only if their patterns differ in bits that count. -/
theorem key_eq_iff {f : Field} {p p' : Pattern} {key key' : Key}
    (h : Key.ofPattern f p = .ok key) (h' : Key.ofPattern f p' = .ok key') :
    key = key' ↔ Agree (prescribed f).width p.value p'.value ∧
      Agree (prescribed f).width p.mask p'.mask := by
  have hreads := reads_of_ofPattern h
  have hreads' := reads_of_ofPattern h'
  obtain ⟨hvalue, hmask⟩ := readable_of_ofPattern h
  obtain ⟨hvalue', hmask'⟩ := readable_of_ofPattern h'
  rw [← holds_eq_iff (hvalue.trans hvalue'.symm) hreads.value hreads'.value,
    ← holds_eq_iff (hmask.trans hmask'.symm) hreads.mask hreads'.mask]
  constructor
  · rintro rfl
    exact ⟨rfl, rfl⟩
  · rintro ⟨hsameValue, hsameMask⟩
    obtain ⟨field, value, mask⟩ := key
    obtain ⟨field', value', mask'⟩ := key'
    have hfield : field = field' := hreads.field.trans hreads'.field.symm
    simp only at hsameValue hsameMask
    rw [hfield, hsameValue, hsameMask]

section Lists
variable {k : Kind} {f : Field} {p : Pattern}

theorem keyOn_of_kind (h : f.kind = k) (p : Pattern) :
    keyOn k f p = (Key.ofPattern f p).map some := if_pos h

theorem keyOn_of_other (h : f.kind ≠ k) (p : Pattern) : keyOn k f p = .ok none := if_neg h

theorem keyOn_eq_key_iff {key : Key} :
    keyOn k f p = .ok (some key) ↔ f.kind = k ∧ Key.ofPattern f p = .ok key := by
  by_cases hkind : f.kind = k
  · simp [keyOn_of_kind hkind, map_eq_ok_iff, hkind]
  · simp [keyOn_of_other hkind, hkind]

theorem keyOn_eq_none_iff : keyOn k f p = .ok none ↔ f.kind ≠ k := by
  by_cases hkind : f.kind = k
  · simp [keyOn_of_kind hkind, map_eq_ok_iff, hkind]
  · simp [keyOn_of_other hkind, hkind]

end Lists

/-- How a list reads patterns for a field: when it passes over the field, when it makes a key,
what it puts a failure down to, what the key holds and which patterns it tells apart. -/
structure ReadsPatterns (k : Kind) (f : Field) : Prop where
  skipped : ∀ p, keyOn k f p = .ok none ↔ f.kind ≠ k
  made : f.kind = k → ∀ p, (∃ key, keyOn k f p = .ok (some key)) ↔
    classOf p.value = (prescribed f).operands ∧ classOf p.mask = (prescribed f).operands
  refused : f.kind = k → ∀ p cause, keyOn k f p = .error cause ↔
    classOf p.value ≠ (prescribed f).operands ∧
        cause = .wrongOperand (.field f) (.value f.layout) ∨
      classOf p.value = (prescribed f).operands ∧ classOf p.mask ≠ (prescribed f).operands ∧
        cause = .wrongOperand (.field f) (.mask f.layout)
  reads : ∀ p key, keyOn k f p = .ok (some key) → Reads f p key
  tells : ∀ p p' key key', keyOn k f p = .ok (some key) → keyOn k f p' = .ok (some key') →
    (key = key' ↔ Agree (prescribed f).width p.value p'.value ∧
      Agree (prescribed f).width p.mask p'.mask)

/-- Every list reads patterns so for every field. -/
theorem fields_read_patterns (k : Kind) (f : Field) : ReadsPatterns k f where
  skipped _ := keyOn_eq_none_iff
  made hkind p := by
    rw [← readable_iff, ← exists_ofPattern_iff]
    exact exists_congr fun key => keyOn_eq_key_iff.trans (and_iff_right hkind)
  refused hkind p cause := by
    rw [keyOn_of_kind hkind, map_eq_error_iff, ofPattern_eq_error_iff, classRead_layout]
  reads _ _ h := reads_of_ofPattern (keyOn_eq_key_iff.mp h).2
  tells _ _ _ _ h h' := key_eq_iff (keyOn_eq_key_iff.mp h).2 (keyOn_eq_key_iff.mp h').2

/-- Two patterns for a VLAN priority that differ above the low octets of their operands. -/
theorem fields_read_patterns_tag :
    let wide : Pattern := ⟨.scalar32 0x10005, .scalar16 0xff07⟩
    let narrow : Pattern := ⟨.scalar8 5, .scalar32 0x107⟩
    let key : Key := ⟨.mac .vlanPriority, .bits8 5, .bits16 7⟩
    (keyOn .mac (.mac .vlanPriority) wide = .ok (some key) ∧
      keyOn .mac (.mac .vlanPriority) narrow = .ok (some key) ∧
      keyOn .ipv4 (.mac .vlanPriority) wide = .ok none ∧
      Agree (some 8) wide.value narrow.value ∧ Agree (some 8) wide.mask narrow.mask) ∧
    ReadsPatterns .mac (.mac .vlanPriority) := by
  intro wide narrow key
  have hreads := fields_read_patterns .mac (.mac .vlanPriority)
  have hwide : keyOn .mac (.mac .vlanPriority) wide = .ok (some key) := rfl
  have hnarrow : keyOn .mac (.mac .vlanPriority) narrow = .ok (some key) := rfl
  exact ⟨⟨hwide, hnarrow, rfl, (hreads.tells wide narrow key key hwide hnarrow).mp rfl⟩,
    hreads⟩

end AccessList.Proofs.KeyReadings
