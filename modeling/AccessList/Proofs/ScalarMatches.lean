import AccessList.Proofs.KeyReadings
import AccessList.Proofs.LiteralKinds
import AccessList.Proofs.MatchDocuments
import AccessList.Proofs.RequestedAttributes
import AccessList.Proofs.ScalarTexts

/-!
Matches of scalars, from the document to the packets. A number is written with 64 bits or as a
text, is read with 32 and goes into a key with the bits of the field, so three ranges meet.
Whatever is below 2 ^ 32 keeps its low bits, in the value and in the mask, and a key without a
mask of its own counts every bit of the field. Whatever is not is refused before anything is
cut, and a text that spells no number is refused too.
-/
namespace AccessList.Proofs.ScalarMatches

open AttributeEffects Fields KeyReadings Keys LiteralKinds MatchDocuments Matches NetworkMatches
  NumeralTexts Numerals OperandClasses Operands Qualifiers RequestedAttributes Roles ScalarTexts
  Scenarios

/-- The bits of a field that count: those of the mask, or all of them. -/
def maskBits (width : Nat) : Option Nat → Nat
  | none => 2 ^ width - 1
  | some m => m % 2 ^ width

/-- What a packet holds in a field is meant by a number under a mask: it is the number itself
where there is no mask, and has the same bits under the mask otherwise, as far as the field
goes. -/
def Meant (width v : Nat) : Option Nat → Nat → Prop
  | none, x => x = v % 2 ^ width
  | some m, x => (x &&& m) % 2 ^ width = (v &&& m) % 2 ^ width

/-- A key of a field that selects exactly what is meant. -/
structure Selects (f : Field) (width v : Nat) (m : Option Nat) (key : Key) : Prop where
  field : key.field = f
  value : formOf key.value = (prescribed f).value ∧ numberOf key.value = v % 2 ^ width
  mask : formOf key.mask = (prescribed f).mask ∧ numberOf key.mask = maskBits width m
  packets : ∀ x < 2 ^ width,
    x &&& numberOf key.mask = numberOf key.value &&& numberOf key.mask ↔ Meant width v m x

section Bits
variable {width x : Nat}

theorem and_maskBits_eq_iff (hx : x < 2 ^ width) (v : Nat) (m : Option Nat) :
    x &&& maskBits width m = v % 2 ^ width &&& maskBits width m ↔ Meant width v m x := by
  cases m with
  | none =>
    simp only [maskBits, Meant, Nat.and_two_pow_sub_one_eq_mod, Nat.mod_mod, Nat.mod_eq_of_lt hx]
  | some m => simp only [maskBits, Meant, Nat.and_mod_two_pow, Nat.mod_eq_of_lt hx]

end Bits

section Fields
variable {k : Kind} {q : Qualifier} {f : Field} {width : Nat}

/-- Fields that take scalars have 8, 16 or 32 bits. -/
theorem scalar_of_width (h : (prescribed f).width = some width) :
    (prescribed f).operands = .scalar ∧ (width = 8 ∨ width = 16 ∨ width = 32) := by
  rcases f with f | f | f <;> cases f <;> cases h <;> decide

theorem plain_of_width (hrole : role k q = .keyed f) (h : (prescribed f).width = some width) :
    addressClass? q = none := by
  have hclass := classRead_of_keyed hrole
  rw [classRead_layout, (scalar_of_width h).1] at hclass
  cases hread : addressClass? q with
  | none => rfl
  | some c =>
    rw [hread] at hclass
    cases q <;> cases hread <;> cases hclass

end Fields

section Words
variable {value : Literal} {mask : Option Literal} {v : Nat} {m : Option Nat}

/-- The word that is read for a mask; without one it has every bit, above the field too. -/
def maskWord : Option Nat → BitVec 32
  | none => BitVec.allOnes 32
  | some m => BitVec.ofNat 32 m

theorem toNat_maskWord_mod {width : Nat} (hwidth : width = 8 ∨ width = 16 ∨ width = 32)
    (m : Option Nat) : (maskWord m).toNat % 2 ^ width = maskBits width m := by
  have hle : width ≤ 32 := by omega
  cases m with
  | none => rcases hwidth with rfl | rfl | rfl <;> rfl
  | some m =>
    rw [maskWord, BitVec.toNat_ofNat]
    -- What the word cuts off, the field would not keep either.
    exact Nat.mod_mod_of_dvd m (Nat.pow_dvd_pow 2 hle)

theorem scalarPattern_of_denotes (hvalue : Denotes value v) (hmask : Option.Rel Denotes mask m)
    (hv : v < 2 ^ 32) (hm : ∀ b ∈ m, b < 2 ^ 32) :
    scalarPattern value mask = .ok ⟨.scalar32 (BitVec.ofNat 32 v), .scalar32 (maskWord m)⟩ := by
  have hread := (scalar_of_denotes hvalue).trans (if_pos hv)
  cases hmask with
  | none => simp only [scalarPattern, hread, bind, Except.bind, maskWord]
  | @some l m hdenotes =>
    have hreadMask := (scalar_of_denotes hdenotes).trans (if_pos (hm m rfl))
    simp only [scalarPattern, hread, hreadMask, bind, Except.bind, maskWord]

theorem exists_scalarPattern_iff :
    (∃ p, scalarPattern value mask = .ok p) ↔ FitsWord value ∧ ∀ l ∈ mask, FitsWord l := by
  simp only [← exists_scalar_iff, scalarPattern]
  cases scalar value with
  | error cause => simp [bind, Except.bind]
  | ok v =>
    cases mask with
    | none => simp [bind, Except.bind]
    | some l =>
      simp only [Option.mem_some_iff, forall_eq']
      cases scalar l <;> simp [bind, Except.bind]

theorem scalarPattern_of_large (hvalue : Denotes value v) (hv : 2 ^ 32 ≤ v)
    (mask : Option Literal) : scalarPattern value mask = .error (.numeral .tooLarge) := by
  have hread := (scalar_of_denotes hvalue).trans (if_neg (Nat.not_lt_of_le hv))
  simp only [scalarPattern, hread, bind, Except.bind]

theorem scalarPattern_of_largeMask {l : Literal} {b : Nat} (hvalue : FitsWord value)
    (hmask : Denotes l b) (hb : 2 ^ 32 ≤ b) :
    scalarPattern value (some l) = .error (.numeral .tooLarge) := by
  obtain ⟨v, hread⟩ := exists_scalar_iff.mpr hvalue
  have hreadMask := (scalar_of_denotes hmask).trans (if_neg (Nat.not_lt_of_le hb))
  simp only [scalarPattern, hread, hreadMask, bind, Except.bind]

end Words

section Keyed
variable {k : Kind} {q : Qualifier} {f : Field} {width : Nat}

theorem pattern_of_scalar (hrole : role k q = .keyed f) (h : (prescribed f).width = some width)
    {value : Literal} (hlist : ∀ ids, value ≠ .list ids) (mask : Option Literal) :
    MatchRequest.pattern ⟨q, value, mask⟩ = scalarPattern value mask := by
  rw [pattern_of_plain (plain_of_width hrole h)]
  cases value with
  | number n => simp [not_reference_of_keyed hrole]
  | list ids => exact absurd rfl (hlist ids)
  | text text => rfl

theorem exists_key (h : (prescribed f).width = some width) (v b : BitVec 32) :
    ∃ key, Key.ofPattern f ⟨.scalar32 v, .scalar32 b⟩ = .ok key := by
  refine (exists_ofPattern_iff f _).mpr (readable_iff.mpr ?_)
  rw [(scalar_of_width h).1]
  exact ⟨rfl, rfl⟩

theorem number_of_holds {form : CellForm} {v : BitVec 32} {c : Cell}
    (h : Holds form (some width) (.scalar32 v) c) : numberOf c = v.toNat % 2 ^ width :=
  (Option.some.inj h.2).symm

/-- The key has the low bits of both numbers, however wide its cells are. -/
theorem selects_of_ofPattern (h : (prescribed f).width = some width) {v : Nat}
    (hv : v < 2 ^ 32) (m : Option Nat) {key : Key}
    (hkey : Key.ofPattern f ⟨.scalar32 (BitVec.ofNat 32 v), .scalar32 (maskWord m)⟩ = .ok key) :
    Selects f width v m key := by
  have hreads := reads_of_ofPattern hkey
  have hvalue := hreads.value
  have hmask := hreads.mask
  rw [h] at hvalue hmask
  have hvalueNumber : numberOf key.value = v % 2 ^ width := by
    rw [number_of_holds hvalue, BitVec.toNat_ofNat, Nat.mod_eq_of_lt hv]
  have hmaskNumber : numberOf key.mask = maskBits width m := by
    rw [number_of_holds hmask, toNat_maskWord_mod (scalar_of_width h).2]
  refine ⟨hreads.field, ⟨hvalue.1, hvalueNumber⟩, ⟨hmask.1, hmaskNumber⟩, fun x hx => ?_⟩
  rw [hvalueNumber, hmaskNumber]
  exact and_maskBits_eq_iff hx v m

end Keyed

/-- What lists of a kind make of the scalars of a qualifier that has a field in them: how wide
the field is, that a literal denotes one number at most and every request has a document, which
key comes of the numbers and which packets it selects, which literals are taken, what becomes
of the others and which characters are digits. A list is no scalar: as a value it names
objects. -/
structure MatchesScalars (k : Kind) (q : Qualifier) (f : Field) (width : Nat) : Prop where
  widths : width = 8 ∨ width = 16 ∨ width = 32
  denoted : ∀ l n n', Denotes l n → Denotes l n' → n = n'
  decoded : ∀ value mask, matchRequest? (matchDocument ⟨q, value, mask⟩) = some ⟨q, value, mask⟩
  keyed : ∀ value mask v m, Denotes value v → Option.Rel Denotes mask m → v < 2 ^ 32 →
    (∀ b ∈ m, b < 2 ^ 32) → ∃ p key, checkedPattern ⟨q, value, mask⟩ = .ok p ∧
      Assembled k q p key ∧ Selects f width v m key
  taken : ∀ value mask, (∀ ids, value ≠ .list ids) →
    ((∃ p, checkedPattern ⟨q, value, mask⟩ = .ok p) ↔ FitsWord value ∧ ∀ l ∈ mask, FitsWord l)
  refused : ∀ value mask, (∀ ids, value ≠ .list ids) → ¬ (FitsWord value ∧ ∀ l ∈ mask, FitsWord l) →
    ∃ cause, checkedPattern ⟨q, value, mask⟩ = .error (.invalidValue q cause)
  large : ∀ value mask v, Denotes value v → 2 ^ 32 ≤ v →
    checkedPattern ⟨q, value, mask⟩ = .error (.invalidValue q (.numeral .tooLarge))
  largeMask : ∀ value l b, FitsWord value → Denotes l b → 2 ^ 32 ≤ b →
    checkedPattern ⟨q, value, some l⟩ = .error (.invalidValue q (.numeral .tooLarge))
  digits : ∀ radix ∈ [10, 16], ∀ c d, digit? radix c = some d ↔
    d < radix ∧ (c = Nat.digitChar d ∨ c = (Nat.digitChar d).toUpper)

theorem ne_list_of_denotes {l : Literal} {n : Nat} (h : Denotes l n) (ids : List UInt64) :
    l ≠ .list ids := by
  rintro rfl
  cases h

/-- Every qualifier with a scalar field in lists of some kind is matched so there. -/
theorem scalars_match_low_bits {k : Kind} {q : Qualifier} {f : Field} {width : Nat}
    (hrole : role k q = .keyed f) (hwidth : (prescribed f).width = some width) :
    MatchesScalars k q f width where
  widths := (scalar_of_width hwidth).2
  denoted _ _ _ := denotes_unique
  decoded value mask := matchRequest?_document ⟨q, value, mask⟩
  keyed value mask v m hvalue hmask hv hm := by
    have hread : MatchRequest.pattern ⟨q, value, mask⟩ =
        .ok ⟨.scalar32 (BitVec.ofNat 32 v), .scalar32 (maskWord m)⟩ := by
      rw [pattern_of_scalar hrole hwidth (ne_list_of_denotes hvalue)]
      exact scalarPattern_of_denotes hvalue hmask hv hm
    obtain ⟨key, hkey⟩ := exists_key hwidth (BitVec.ofNat 32 v) (maskWord m)
    exact ⟨_, key, checkedPattern_of_ok hread, assembled_of_keyed hrole hkey,
      selects_of_ofPattern hwidth hv m hkey⟩
  taken value mask hlist := by
    rw [← exists_scalarPattern_iff, ← pattern_of_scalar hrole hwidth hlist]
    unfold checkedPattern
    cases MatchRequest.pattern ⟨q, value, mask⟩ <;> simp
  refused value mask hlist hnot := by
    rw [← exists_scalarPattern_iff, ← pattern_of_scalar hrole hwidth hlist] at hnot
    cases hread : MatchRequest.pattern ⟨q, value, mask⟩ with
    | ok p => exact absurd ⟨p, hread⟩ hnot
    | error cause => exact ⟨cause, checkedPattern_of_error hread⟩
  large value mask v hvalue hv := by
    refine checkedPattern_of_error ?_
    rw [pattern_of_scalar hrole hwidth (ne_list_of_denotes hvalue)]
    exact scalarPattern_of_large hvalue hv mask
  largeMask value l b hvalue hmask hb := by
    have hlist : ∀ ids, value ≠ .list ids := by
      obtain ⟨v, -, hdenotes⟩ := hvalue
      exact ne_list_of_denotes hdenotes
    refine checkedPattern_of_error ?_
    rw [pattern_of_scalar hrole hwidth hlist]
    exact scalarPattern_of_largeMask hvalue hmask hb
  digits radix hradix c d := by
    refine digit?_eq_some_iff ?_
    rcases List.mem_pair.mp hradix with rfl | rfl <;> omega

/-- A VLAN priority written with nine bits, of which the field has eight and the mask counts
three. -/
theorem scalars_match_low_bits_vlanTag :
    let value : Literal := .text "0x1Fd"
    let mask : Literal := .text "+007"
    (role .mac .outerVlanPri = .keyed (.mac .vlanPriority) ∧
      (prescribed (.mac .vlanPriority)).width = some 8 ∧
      Denotes value 509 ∧ Denotes mask 7 ∧ maskBits 8 (some 7) = 7 ∧ Meant 8 509 (some 7) 5) ∧
    MatchesScalars .mac .outerVlanPri (.mac .vlanPriority) 8 := by
  intro value mask
  have hvalue : Denotes value 509 :=
    .hexadecimal (Or.inl (by decide))
      ⟨['1', 'F', 'd'], [1, 15, 13], Or.inl rfl, by decide,
        .cons rfl (.cons rfl (.cons rfl .nil)), rfl⟩
  have hmask : Denotes mask 7 :=
    .decimal ⟨['0', '0', '7'], [0, 0, 7], Or.inr (by decide), by decide,
      .cons rfl (.cons rfl (.cons rfl .nil)), rfl⟩
  exact ⟨⟨rfl, rfl, hvalue, hmask, rfl, rfl⟩, scalars_match_low_bits rfl rfl⟩

end AccessList.Proofs.ScalarMatches
