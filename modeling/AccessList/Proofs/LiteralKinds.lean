import AccessList.Proofs.AttributeFlaws
import AccessList.Proofs.NetworkMatches

/-!
Which literals a list takes for a qualifier. A request is read by its qualifier and by what
its literal is, without the kind of the list, and the pattern is then read by the field or as
objects. The two agree: a keyed field takes every literal but a list and makes one key of it,
and a binding qualifier takes the literal that names its objects, which stay as they are. All
else is refused, and the error says what was wanted.
-/
namespace AccessList.Proofs.LiteralKinds

open Addresses AttributeEffects AttributeFlaws Attributes Errors Fields FittingKinds Handles Keys
  Matches NetworkMatches OperandClasses Operands Qualifiers Roles Scenarios

/-- The class of the addresses that a qualifier stands for. -/
def addressClass? : Qualifier → Option OperandClass
  | .srcIp | .dstIp => some .ipv4
  | .srcIpv6 | .dstIpv6 => some .ipv6
  | .srcMac | .dstMac => some .mac
  | _ => none

/-- What a literal can be read as: a text as an address, a list as objects, a number as the
object of a reference, and any number or text that is neither as a scalar. -/
inductive ReadAs (q : Qualifier) : Literal → Pattern → Prop
  | address {c : OperandClass} {text : String} {p : Pattern} (address : addressClass? q = some c)
      (value : classOf p.value = c) (mask : classOf p.mask = c) : ReadAs q (.text text) p
  | objects {ids : List ObjectId} (plain : addressClass? q = none) :
      ReadAs q (.list ids) (.objects ids)
  | object {id : ObjectId} (reference : q.isReference = true) :
      ReadAs q (.number id) (.object id)
  | number {n : UInt64} {v mask : BitVec 32} (plain : addressClass? q = none)
      (keyed : q.isReference = false) : ReadAs q (.number n) ⟨.scalar32 v, .scalar32 mask⟩
  | text {text : String} {v mask : BitVec 32} (plain : addressClass? q = none) :
      ReadAs q (.text text) ⟨.scalar32 v, .scalar32 mask⟩

section Reading
variable {value : Literal} {mask : Option Literal} {p : Pattern}

theorem exists_of_bind {ε α β : Type} {x : Except ε α} {f : α → Except ε β} {b : β}
    (h : x >>= f = .ok b) : ∃ a, x = .ok a ∧ f a = .ok b := by
  cases x with
  | error cause => cases h
  | ok a => exact ⟨a, rfl, h⟩

/-- What is read of an address and of the text of its mask goes into one pattern. -/
theorem exists_of_masked {α β : Type} {x : Except ValueError α} (whole : β)
    (read : String → Except ValueError β) (make : α → β → Pattern)
    (h : (x >>= fun a =>
      match mask with
      | none => .ok (make a whole)
      | some l => textOf l >>= fun text => read text >>= fun b => .ok (make a b)) = .ok p) :
    ∃ a b, p = make a b := by
  obtain ⟨a, -, h⟩ := exists_of_bind h
  cases mask with
  | none =>
    cases h
    exact ⟨a, whole, rfl⟩
  | some l =>
    obtain ⟨text, -, h⟩ := exists_of_bind h
    obtain ⟨b, -, h⟩ := exists_of_bind h
    cases h
    exact ⟨a, b, rfl⟩

theorem text_of_textOf {text : String} (h : textOf value = .ok text) : value = .text text := by
  cases value <;> cases h
  rfl

theorem text_of_patternOf {fam : Family} (h : fam.patternOf value mask = .ok p) :
    ∃ text a b, value = .text text ∧ p = fam.pattern a b := by
  obtain ⟨text, htext, h⟩ := exists_of_bind h
  obtain ⟨⟨address, len⟩, -, h⟩ := exists_of_bind h
  obtain ⟨a, b, rfl⟩ := exists_of_masked (leadingMask fam.width len)
    (fun text => fam.addressOf text.toList) fam.pattern h
  exact ⟨text, a, b, text_of_textOf htext, rfl⟩

theorem text_of_macPattern (h : macPattern value mask = .ok p) :
    ∃ text a b, value = .text text ∧ p = .mac a b := by
  obtain ⟨text, htext, h⟩ := exists_of_bind h
  obtain ⟨a, b, rfl⟩ := exists_of_masked (BitVec.allOnes 48) macOf .mac h
  exact ⟨text, a, b, text_of_textOf htext, rfl⟩

theorem scalars_of_scalarPattern (h : scalarPattern value mask = .ok p) :
    ∃ v b, p = ⟨.scalar32 v, .scalar32 b⟩ := by
  obtain ⟨v, -, h⟩ := exists_of_bind h
  cases mask with
  | none =>
    cases h
    exact ⟨v, _, rfl⟩
  | some l =>
    obtain ⟨b, -, h⟩ := exists_of_bind h
    cases h
    exact ⟨v, b, rfl⟩

end Reading

/-- Qualifiers that stand for no address are told apart by the literal and by whether they are
references. -/
theorem pattern_of_plain {q : Qualifier} (h : addressClass? q = none) (value : Literal)
    (mask : Option Literal) :
    MatchRequest.pattern ⟨q, value, mask⟩ =
      match value with
      | .list ids => .ok (.objects ids)
      | .number n => if q.isReference then .ok (.object n) else scalarPattern value mask
      | .text _ => scalarPattern value mask := by
  cases q with
  | srcIp | dstIp | srcIpv6 | dstIpv6 | srcMac | dstMac => cases h
  | _ => cases value <;> rfl

theorem readAs_of_plain {q : Qualifier} {value : Literal} {mask : Option Literal} {p : Pattern}
    (hplain : addressClass? q = none) (h : MatchRequest.pattern ⟨q, value, mask⟩ = .ok p) :
    ReadAs q value p := by
  rw [pattern_of_plain hplain] at h
  cases value with
  | list ids =>
    cases h
    exact .objects hplain
  | text text =>
    obtain ⟨v, b, rfl⟩ := scalars_of_scalarPattern h
    exact .text hplain
  | number n =>
    cases hreference : q.isReference with
    | true =>
      simp only [hreference, if_true] at h
      cases h
      exact .object hreference
    | false =>
      simp only [hreference] at h
      obtain ⟨v, b, rfl⟩ := scalars_of_scalarPattern h
      exact .number hplain hreference

/-- Every pattern of a request is one of those that its literal can be read as. -/
theorem readAs_of_pattern {m : MatchRequest} {p : Pattern} (h : m.pattern = .ok p) :
    ReadAs m.qualifier m.value p := by
  obtain ⟨q, value, mask⟩ := m
  cases q with
  | srcIp | dstIp =>
    have hread : ipv4Pattern value mask = .ok p := h
    rw [ipv4Pattern_eq] at hread
    obtain ⟨text, a, b, rfl, rfl⟩ := text_of_patternOf hread
    exact .address rfl rfl rfl
  | srcIpv6 | dstIpv6 =>
    have hread : ipv6Pattern value mask = .ok p := h
    rw [ipv6Pattern_eq] at hread
    obtain ⟨text, a, b, rfl, rfl⟩ := text_of_patternOf hread
    exact .address rfl rfl rfl
  | srcMac | dstMac =>
    obtain ⟨text, a, b, rfl, rfl⟩ := text_of_macPattern h
    exact .address rfl rfl rfl
  | _ => exact readAs_of_plain rfl h

theorem readAs_of_checkedPattern {m : MatchRequest} {p : Pattern}
    (h : checkedPattern m = .ok p) : ReadAs m.qualifier m.value p := by
  unfold checkedPattern at h
  split at h
  next hread =>
    cases h
    exact readAs_of_pattern hread
  next => cases h

section Classes
variable {k : Kind} {q : Qualifier} {f : Field} {l : Literal} {p : Pattern}

/-- A field reads the addresses that its qualifier stands for, or scalars if it stands for
none, whatever the kind of the list. -/
theorem classRead_of_keyed (h : role k q = .keyed f) :
    classRead f.layout = (addressClass? q).getD .scalar := by
  have hfield : field? k q = some f := role_eq_keyed_iff.mp h
  cases k <;> cases q <;> cases hfield <;> rfl

theorem classRead_ne_objects (layout : Layout) : .objects ≠ classRead layout := by
  cases layout <;> decide

/-- A keyed field can read a literal with its mask unless it is a list. -/
theorem readable_of_readAs (hkeyed : role k q = .keyed f) (h : ReadAs q l p)
    (hlist : ∀ ids, l ≠ .list ids) : Readable f p := by
  unfold Readable
  rw [classRead_of_keyed hkeyed]
  cases h with
  | address hclass hvalue hmask =>
    rw [hclass]
    exact ⟨hvalue, hmask⟩
  | @objects ids hplain => exact absurd rfl (hlist ids)
  | object hreference =>
    rw [not_reference_of_keyed hkeyed] at hreference
    cases hreference
  | number hplain | text hplain =>
    rw [hplain]
    exact ⟨rfl, rfl⟩

theorem eq_objects_of_readAs {ids : List ObjectId} (h : ReadAs q (.list ids) p) :
    p = .objects ids := by
  cases h
  rfl

theorem eq_object_of_readAs {id : ObjectId} (hreference : q.isReference = true)
    (h : ReadAs q (.number id) p) : p = .object id := by
  cases h with
  | object => rfl
  | number hplain hkeyed =>
    rw [hreference] at hkeyed
    cases hkeyed

theorem ne_objects_of_address {c : OperandClass} (h : addressClass? q = some c) :
    c ≠ .objects ∧ c ≠ .object := by
  cases q <;> cases h <;> decide

/-- Objects come from literals that name them. -/
theorem list_of_classOf (h : ReadAs q l p) (hclass : classOf p.value = .objects) :
    ∃ ids, l = .list ids := by
  cases h with
  | address haddress hvalue =>
    exact absurd (hvalue.symm.trans hclass) (ne_objects_of_address haddress).1
  | @objects ids => exact ⟨ids, rfl⟩
  | object | number | text => cases hclass

theorem number_of_classOf (h : ReadAs q l p) (hclass : classOf p.value = .object) :
    ∃ id, l = .number id := by
  cases h with
  | address haddress hvalue =>
    exact absurd (hvalue.symm.trans hclass) (ne_objects_of_address haddress).2
  | @object id => exact ⟨id, rfl⟩
  | objects | number | text => cases hclass

end Classes

/-- The literals that a list of some kind takes for a qualifier, and what they do there: one
key made of the pattern, or the objects just as they are written. -/
inductive Taken (k : Kind) (p : Pattern) : Qualifier → Literal → Effect → Prop
  | key {q : Qualifier} {f : Field} {l : Literal} {key : Key} (keyed : role k q = .keyed f)
      (single : ∀ ids, l ≠ .list ids) (made : Key.ofPattern f p = .ok key) :
      Taken k p q l (.key key)
  | objects {ids : List ObjectId} (real : 0 ∉ ids) :
      Taken k p .inPorts (.list ids) (.bind ids)
  | object {q : Qualifier} {id : ObjectId} (single : q = .inPort ∨ q = .outerVlanId)
      (real : id ≠ 0) : Taken k p q (.number id) (.bind [id])

/-- The literals that it does not take, each with the error. -/
inductive Declined (k : Kind) : Qualifier → Literal → RequestError → Prop
  | refused {q : Qualifier} {l : Literal} (refused : role k q = .refused) :
      Declined k q l (.unsupported q k)
  | listed {q : Qualifier} {f : Field} {ids : List ObjectId} (keyed : role k q = .keyed f) :
      Declined k q (.list ids) (.wrongOperand (.field f) (.value f.layout))
  | notList {l : Literal} (other : ∀ ids, l ≠ .list ids) :
      Declined k .inPorts l (.wrongOperand (.qualifier .inPorts) .objectList)
  | nullListed {ids : List ObjectId} (null : 0 ∈ ids) :
      Declined k .inPorts (.list ids) (.wrongOperand (.qualifier .inPorts) .nonNullObjects)
  | notNumber {q : Qualifier} {l : Literal} (single : q = .inPort ∨ q = .outerVlanId)
      (other : ∀ id, l ≠ .number id) :
      Declined k q l (.wrongOperand (.qualifier q) .object)
  | nullNumber {q : Qualifier} (single : q = .inPort ∨ q = .outerVlanId) :
      Declined k q (.number 0) (.wrongOperand (.qualifier q) .nonNullObject)
  | unbound {q : Qualifier} {l : Literal} (unbound : q ∈ unboundQualifiers) :
      Declined k q l (.unsupported q k)

section Step
variable {k : Kind} {q : Qualifier} {l : Literal} {p : Pattern} {e : Effect}
  {cause : RequestError}

theorem effect_of_taken (hread : ReadAs q l p) (h : Taken k p q l e) :
    (Attribute.field q p).effect k = .ok e := by
  cases h with
  | key hkeyed hsingle hmade =>
    rw [effect_of_keyed p hkeyed, hmade]
    rfl
  | @objects ids hreal =>
    rw [eq_objects_of_readAs hread, effect_of_reference k _ rfl, map_eq_ok_iff]
    exact ⟨ids, (boundObjects_eq_ok_iff k .inPorts _ ids).mpr (Or.inl ⟨rfl, rfl, hreal⟩), rfl⟩
  | @object _ id hsingle hreal =>
    have hreference := reference_of_single hsingle
    rw [eq_object_of_readAs hreference hread, effect_of_reference k _ hreference, map_eq_ok_iff]
    exact ⟨[id], (boundObjects_eq_ok_iff k q _ [id]).mpr
      (Or.inr ⟨hsingle, id, rfl, hreal, rfl⟩), rfl⟩

/-- A literal that is not taken is read as a pattern with a flaw. -/
theorem flaw_of_declined (hread : ReadAs q l p) (h : Declined k q l cause) :
    Flaw k (.field q p) cause := by
  cases h with
  | refused hrefused => exact .refused hrefused
  | @listed _ f ids hkeyed =>
    rw [eq_objects_of_readAs hread]
    exact .value hkeyed (classRead_ne_objects f.layout)
  | notList hother =>
    refine .notObjects fun hclass => ?_
    obtain ⟨ids, hids⟩ := list_of_classOf hread hclass
    exact hother ids hids
  | nullListed hnull =>
    rw [eq_objects_of_readAs hread]
    exact .nullAmong hnull
  | notNumber hsingle hother =>
    refine .notObject hsingle fun hclass => ?_
    obtain ⟨id, hid⟩ := number_of_classOf hread hclass
    exact hother id hid
  | nullNumber hsingle =>
    rw [eq_object_of_readAs (reference_of_single hsingle) hread]
    exact .nullObject hsingle
  | unbound hunbound => exact .unbound hunbound

/-- Every literal that can be read for a qualifier is taken or declined. -/
theorem taken_or_declined (k : Kind) (hread : ReadAs q l p) :
    (∃ e, Taken k p q l e) ∨ ∃ cause, Declined k q l cause := by
  cases hrole : role k q with
  | refused => exact Or.inr ⟨_, .refused hrole⟩
  | keyed f =>
    -- Only here does a mask have to be read: one beside objects is gone with the request.
    by_cases hlist : ∃ ids, l = .list ids
    · obtain ⟨ids, rfl⟩ := hlist
      exact Or.inr ⟨_, .listed hrole⟩
    · rw [not_exists] at hlist
      obtain ⟨key, hmade⟩ :=
        (exists_ofPattern_iff f p).mpr (readable_of_readAs hrole hread hlist)
      exact Or.inl ⟨_, .key hrole hlist hmade⟩
  | binding =>
    rcases cases_of_reference (role_eq_binding_iff.mp hrole) with rfl | hsingle | hunbound
    · cases l with
      | list ids =>
        by_cases hnull : 0 ∈ ids
        · exact Or.inr ⟨_, .nullListed hnull⟩
        · exact Or.inl ⟨_, .objects hnull⟩
      | number | text => exact Or.inr ⟨_, .notList nofun⟩
    · cases l with
      | number id =>
        by_cases hnull : id = 0
        · rw [hnull]
          exact Or.inr ⟨_, .nullNumber hsingle⟩
        · exact Or.inl ⟨_, .object hsingle hnull⟩
      | list | text => exact Or.inr ⟨_, .notNumber hsingle nofun⟩
    · exact Or.inr ⟨_, .unbound hunbound⟩

theorem effect_eq_ok_iff_taken (hread : ReadAs q l p) :
    (Attribute.field q p).effect k = .ok e ↔ Taken k p q l e := by
  refine ⟨fun h => ?_, effect_of_taken hread⟩
  -- The literal is taken or declined, and either way what the list does with it is known.
  rcases taken_or_declined k hread with ⟨e', htaken⟩ | ⟨cause, hdeclined⟩
  · rw [effect_of_taken hread htaken] at h
    cases h
    exact htaken
  · rw [effect_eq_error_iff.mpr (flaw_of_declined hread hdeclined)] at h
    cases h

theorem effect_eq_error_iff_declined (hread : ReadAs q l p) :
    (Attribute.field q p).effect k = .error cause ↔ Declined k q l cause := by
  refine ⟨fun h => ?_, fun h => effect_eq_error_iff.mpr (flaw_of_declined hread h)⟩
  rcases taken_or_declined k hread with ⟨e, htaken⟩ | ⟨cause', hdeclined⟩
  · rw [effect_of_taken hread htaken] at h
    cases h
  · rw [effect_eq_error_iff.mpr (flaw_of_declined hread hdeclined)] at h
    cases h
    exact hdeclined

/-- What is declined is put down to the operand or to the qualifier itself. -/
theorem cause_of_declined (h : Declined k q l cause) :
    (∃ subject wanted, cause = .wrongOperand subject wanted) ∨ cause = .unsupported q k := by
  cases h with
  | refused | unbound => exact Or.inr rfl
  | _ => exact Or.inl ⟨_, _, rfl⟩

end Step

/-- The reading of a request, made without the kind of the list, is the one that the list
wants: what the list does with the pattern is what its qualifier and its literal say, a key is
never left out, and there is no third kind of error. -/
structure KindsAgree (k : Kind) (m : MatchRequest) (p : Pattern) : Prop where
  taken : ∀ e, (Attribute.field m.qualifier p).effect k = .ok e ↔
    Taken k p m.qualifier m.value e
  keyed : ∀ f, role k m.qualifier = .keyed f → (∀ ids, m.value ≠ .list ids) →
    ∃ key, key.field = f ∧ (Attribute.field m.qualifier p).effect k = .ok (.key key)
  declined : ∀ cause, (Attribute.field m.qualifier p).effect k = .error cause ↔
    Declined k m.qualifier m.value cause
  cause : ∀ cause, (Attribute.field m.qualifier p).effect k = .error cause →
    (∃ subject wanted, cause = .wrongOperand subject wanted) ∨
      cause = .unsupported m.qualifier k

theorem kinds_agree_on_literals {m : MatchRequest} {p : Pattern} (h : checkedPattern m = .ok p)
    (k : Kind) : KindsAgree k m p := by
  have hread : ReadAs m.qualifier m.value p := readAs_of_checkedPattern h
  refine ⟨fun e => effect_eq_ok_iff_taken hread, fun f hkeyed hlist => ?_,
    fun cause => effect_eq_error_iff_declined hread, fun cause hfailed => ?_⟩
  · obtain ⟨key, hmade⟩ :=
      (exists_ofPattern_iff f p).mpr (readable_of_readAs hkeyed hread hlist)
    exact ⟨key, (ofPattern_eq_ok_iff.mp hmade).1, effect_of_taken hread (.key hkeyed hlist hmade)⟩
  · exact cause_of_declined ((effect_eq_error_iff_declined hread).mp hfailed)

/-- The greatest number there is, with a mask that is none. -/
def lastVlan : MatchRequest :=
  ⟨.outerVlanId, .number 18446744073709551615, some (.text "none")⟩

/-- It names an object, which every list is bound to as it is. -/
theorem kinds_agree_on_literals_lastVlan :
    checkedPattern lastVlan = .ok (.object 18446744073709551615) ∧
      (Attribute.field .outerVlanId (.object 18446744073709551615)).effect .mac =
        .ok (.bind [18446744073709551615]) ∧
      KindsAgree .mac lastVlan (.object 18446744073709551615) := by
  have hread : checkedPattern lastVlan = .ok (.object 18446744073709551615) := rfl
  have hagree := kinds_agree_on_literals hread .mac
  have htaken : Taken .mac (.object 18446744073709551615) .outerVlanId
      (.number 18446744073709551615) (.bind [18446744073709551615]) :=
    .object (Or.inr rfl) (by decide)
  exact ⟨hread, (hagree.taken _).mpr htaken, hagree⟩

end AccessList.Proofs.LiteralKinds
