import AccessList.Attributes
import AccessList.Proofs.OperandClasses

/-!
What each attribute says, read without the walk that makes a rule of them. An attribute is
acceptable or not on its own, and an acceptable one has an effect that holds just what it
says: the key on its field, its priority, its verdict or the objects it names.
-/
namespace AccessList.Proofs.AttributeEffects

open Attributes Errors Fields Handles Keys OperandClasses Operands Qualifiers Roles Verdicts

/-- The field of the list that an attribute matches, and the pattern it matches it with. -/
def matched? (k : Kind) : Attribute → Option (Field × Pattern)
  | .field q p =>
    match role k q with
    | .keyed f => some (f, p)
    | _ => none
  | _ => none

def priority? : Attribute → Option UInt32
  | .priority p => some p
  | _ => none

/-- What an attribute asks to be done with packets. Only a redirect has a target. -/
def asked? : Attribute → Option Verdict
  | .packet .forward => some ⟨.permit, none⟩
  | .packet .drop | .packet .deny => some ⟨.drop, none⟩
  | .packet .copy | .packet .log => some ⟨.copyToCpu, none⟩
  | .packet .trap => some ⟨.redirectToCpu, none⟩
  | .redirect target => some ⟨.redirect, some target⟩
  | .flood => some ⟨.floodToVlan, none⟩
  | _ => none

/-- The objects that an attribute names to which a table can be bound. -/
def namedObjects : Attribute → List ObjectId
  | .field .inPorts ⟨.objects ids, _⟩ => ids
  | .field .inPort ⟨.object id, _⟩ => [id]
  | .field .outerVlanId ⟨.object id, _⟩ => [id]
  | _ => []

/-- The attributes that a list of some kind can take. -/
inductive Acceptable (k : Kind) : Attribute → Prop
  | table (raw : UInt64) : Acceptable k (.table raw)
  | priority (p : UInt32) : Acceptable k (.priority p)
  | keyed {q : Qualifier} {f : Field} {p : Pattern} (field : role k q = .keyed f)
      (readable : Readable f p) : Acceptable k (.field q p)
  | objects {ids : List ObjectId} {mask : Operand} (real : 0 ∉ ids) :
      Acceptable k (.field .inPorts ⟨.objects ids, mask⟩)
  | object {q : Qualifier} {id : ObjectId} {mask : Operand}
      (single : q = .inPort ∨ q = .outerVlanId) (real : id ≠ 0) :
      Acceptable k (.field q ⟨.object id, mask⟩)
  | packet (a : PacketAction) : Acceptable k (.packet a)
  | redirect {target : ObjectId} (real : target ≠ 0) : Acceptable k (.redirect target)
  | flood : Acceptable k .flood

/-- An effect holds what the attribute says and nothing else. -/
structure Adds (k : Kind) (a : Attribute) (e : Effect) : Prop where
  key : Option.Rel (fun m key => Key.ofPattern m.1 m.2 = .ok key) (matched? k a) e.key?
  priority : priority? a = e.priority?
  verdict : asked? a = e.verdict?
  objects : namedObjects a = e.objects

/-- The field of a role is one of the list, so its key is never left out. -/
theorem keyOn_of_keyed {k : Kind} {q : Qualifier} {f : Field} (p : Pattern)
    (h : role k q = .keyed f) : keyOn k f p = (Key.ofPattern f p).map some := by
  have hkind : f.kind = k := kind_of_field? (role_eq_keyed_iff.mp h)
  simp only [keyOn, hkind, if_true]

theorem boundObjects_eq_ok_iff (k : Kind) (q : Qualifier) (value : Operand)
    (ids : List ObjectId) :
    boundObjects k q value = .ok ids ↔
      q = .inPorts ∧ value = .objects ids ∧ 0 ∉ ids ∨
      (q = .inPort ∨ q = .outerVlanId) ∧ ∃ id, value = .object id ∧ id ≠ 0 ∧ ids = [id] := by
  cases q with
  | inPorts =>
    cases value with
    | objects named =>
      by_cases hzero : 0 ∈ named
      · simp [boundObjects, Operand.objects?, hzero]
        rintro rfl
        exact hzero
      · simp [boundObjects, Operand.objects?, hzero]
        rintro rfl
        exact hzero
    | _ => simp [boundObjects, Operand.objects?]
  | inPort | outerVlanId =>
    cases value with
    | object id =>
      by_cases hzero : id = 0
      · simp [boundObjects, Operand.object?, hzero]
      · simp [boundObjects, Operand.object?, hzero, eq_comm]
    | _ => simp [boundObjects, Operand.object?]
  | _ => simp [boundObjects]

theorem namedObjects_of_not_reference {q : Qualifier} (p : Pattern)
    (h : q.isReference = false) : namedObjects (.field q p) = [] := by
  obtain ⟨value, mask⟩ := p
  cases q <;> simp [Qualifier.isReference] at h <;> rfl

theorem not_reference_of_not_binding {k : Kind} {q : Qualifier} (h : role k q ≠ .binding) :
    q.isReference = false :=
  Bool.eq_false_iff.mpr fun hreference => h (role_eq_binding_iff.mpr hreference)

theorem not_reference_of_keyed {k : Kind} {q : Qualifier} {f : Field}
    (h : role k q = .keyed f) : q.isReference = false :=
  not_reference_of_not_binding (by rw [h]; nofun)

theorem effect_of_keyed {k : Kind} {q : Qualifier} {f : Field} (p : Pattern)
    (h : role k q = .keyed f) :
    (Attribute.field q p).effect k = (Key.ofPattern f p).map .key := by
  simp only [Attribute.effect, h, keyOn_of_keyed p h]
  cases Key.ofPattern f p <;> rfl

theorem effect_of_binding {k : Kind} {q : Qualifier} (p : Pattern)
    (h : role k q = .binding) :
    (Attribute.field q p).effect k = (boundObjects k q p.value).map .bind := by
  simp only [Attribute.effect, h]

theorem effect_of_refused {k : Kind} {q : Qualifier} (p : Pattern)
    (h : role k q = .refused) :
    (Attribute.field q p).effect k = .error (.unsupported q k) := by
  simp only [Attribute.effect, h]

theorem effect_of_null_redirect (k : Kind) {target : ObjectId} (h : target = 0) :
    (Attribute.redirect target).effect k = .error (.wrongOperand .redirect .redirectTarget) := by
  have hverdict : (Attribute.redirect target).verdict? =
      .error (.wrongOperand .redirect .redirectTarget) := if_pos h
  simp only [Attribute.effect, hverdict]

theorem effect_of_redirect (k : Kind) {target : ObjectId} (h : target ≠ 0) :
    (Attribute.redirect target).effect k = .ok (.verdict (.redirect target)) := by
  have hverdict : (Attribute.redirect target).verdict? = .ok (some (.redirect target)) :=
    if_neg h
  simp only [Attribute.effect, hverdict]

theorem asked?_packet (a : PacketAction) : asked? (.packet a) = some a.verdict := by
  cases a <;> rfl

theorem map_eq_ok_iff {ε α β : Type} {f : α → β} {x : Except ε α} {b : β} :
    x.map f = .ok b ↔ ∃ a, x = .ok a ∧ f a = b := by
  cases x <;> simp [Except.map]

theorem map_eq_error_iff {ε α β : Type} {f : α → β} {x : Except ε α} {cause : ε} :
    x.map f = .error cause ↔ x = .error cause := by
  cases x <;> simp [Except.map]

/-- Every attribute with an effect is acceptable, and the effect says what it says. -/
theorem acceptable_of_effect {k : Kind} {a : Attribute} {e : Effect}
    (h : a.effect k = .ok e) : Acceptable k a ∧ Adds k a e := by
  cases a with
  | table raw =>
    cases h
    exact ⟨.table raw, .none, rfl, rfl, rfl⟩
  | priority p =>
    cases h
    exact ⟨.priority p, .none, rfl, rfl, rfl⟩
  | packet a =>
    cases h
    exact ⟨.packet a, .none, rfl, asked?_packet a, rfl⟩
  | flood =>
    cases h
    exact ⟨.flood, .none, rfl, rfl, rfl⟩
  | redirect target =>
    by_cases hzero : target = 0
    · rw [effect_of_null_redirect k hzero] at h
      cases h
    · rw [effect_of_redirect k hzero] at h
      cases h
      exact ⟨.redirect hzero, .none, rfl, rfl, rfl⟩
  | field q p =>
    cases hrole : role k q with
    | refused => simp [effect_of_refused p hrole] at h
    | keyed f =>
      rw [effect_of_keyed p hrole, map_eq_ok_iff] at h
      obtain ⟨key, hkey, rfl⟩ := h
      have hreadable : Readable f p := (exists_ofPattern_iff f p).mp ⟨key, hkey⟩
      have hnone : namedObjects (.field q p) = [] :=
        namedObjects_of_not_reference p (not_reference_of_keyed hrole)
      have hmatched : matched? k (.field q p) = some (f, p) := by simp only [matched?, hrole]
      refine ⟨.keyed hrole hreadable, ?_, rfl, rfl, hnone⟩
      rw [hmatched]
      exact .some hkey
    | binding =>
      rw [effect_of_binding p hrole, map_eq_ok_iff] at h
      obtain ⟨ids, hids, rfl⟩ := h
      have hmatched : matched? k (.field q p) = none := by simp only [matched?, hrole]
      obtain ⟨value, mask⟩ := p
      rcases (boundObjects_eq_ok_iff k q value ids).mp hids with
        ⟨rfl, rfl, hreal⟩ | ⟨hsingle, id, rfl, hreal, rfl⟩
      · refine ⟨.objects hreal, ?_, rfl, rfl, rfl⟩
        rw [hmatched]
        exact .none
      · refine ⟨.object hsingle hreal, ?_, rfl, rfl, ?_⟩
        · rw [hmatched]
          exact .none
        · rcases hsingle with rfl | rfl <;> rfl

theorem exists_effect_of_acceptable {k : Kind} {a : Attribute} (h : Acceptable k a) :
    ∃ e, a.effect k = .ok e := by
  cases h with
  | table raw => exact ⟨.nothing, rfl⟩
  | priority p => exact ⟨.priority p, rfl⟩
  | packet a => exact ⟨.verdict a.verdict, rfl⟩
  | flood => exact ⟨.verdict .flood, rfl⟩
  | @redirect target hreal =>
    exact ⟨.verdict (.redirect target), effect_of_redirect k hreal⟩
  | @keyed q f p hrole hreadable =>
    obtain ⟨key, hkey⟩ := (exists_ofPattern_iff f p).mpr hreadable
    refine ⟨.key key, ?_⟩
    rw [effect_of_keyed p hrole, hkey]
    rfl
  | @objects ids mask hreal =>
    have hids := (boundObjects_eq_ok_iff k .inPorts (.objects ids) ids).mpr
      (Or.inl ⟨rfl, rfl, hreal⟩)
    refine ⟨.bind ids, ?_⟩
    rw [effect_of_binding ⟨.objects ids, mask⟩ (role_eq_binding_iff.mpr rfl), hids]
    rfl
  | @object q id mask hsingle hreal =>
    have hids := (boundObjects_eq_ok_iff k q (.object id) [id]).mpr
      (Or.inr ⟨hsingle, id, rfl, hreal, rfl⟩)
    have hrole : role k q = .binding :=
      role_eq_binding_iff.mpr (by rcases hsingle with rfl | rfl <;> rfl)
    refine ⟨.bind [id], ?_⟩
    rw [effect_of_binding ⟨.object id, mask⟩ hrole, hids]
    rfl

end AccessList.Proofs.AttributeEffects
