import AccessList.Proofs.FittingKinds

/-!
What can be wrong with an attribute. A field is refused for its qualifier, or it has a value
or a mask of the wrong class, or it names null objects; a redirect can have a null target.
An attribute without such a flaw is acceptable, one with a flaw has no effect, and the flaw is
the error that it fails with.
-/
namespace AccessList.Proofs.AttributeFlaws

open AttributeEffects Attributes Errors Fields FittingKinds Handles Keys OperandClasses Operands
  Qualifiers Roles

/-- The flaws of an attribute on a list of some kind, each with its error. -/
inductive Flaw (k : Kind) : Attribute → RequestError → Prop
  | refused {q : Qualifier} {p : Pattern} (refused : role k q = .refused) :
      Flaw k (.field q p) (.unsupported q k)
  | value {q : Qualifier} {f : Field} {p : Pattern} (keyed : role k q = .keyed f)
      (wrong : classOf p.value ≠ classRead f.layout) :
      Flaw k (.field q p) (.wrongOperand (.field f) (.value f.layout))
  | mask {q : Qualifier} {f : Field} {p : Pattern} (keyed : role k q = .keyed f)
      (right : classOf p.value = classRead f.layout)
      (wrong : classOf p.mask ≠ classRead f.layout) :
      Flaw k (.field q p) (.wrongOperand (.field f) (.mask f.layout))
  | notObjects {p : Pattern} (wrong : classOf p.value ≠ .objects) :
      Flaw k (.field .inPorts p) (.wrongOperand (.qualifier .inPorts) .objectList)
  | nullAmong {ids : List ObjectId} {mask : Operand} (null : 0 ∈ ids) :
      Flaw k (.field .inPorts ⟨.objects ids, mask⟩)
        (.wrongOperand (.qualifier .inPorts) .nonNullObjects)
  | notObject {q : Qualifier} {p : Pattern} (single : q = .inPort ∨ q = .outerVlanId)
      (wrong : classOf p.value ≠ .object) :
      Flaw k (.field q p) (.wrongOperand (.qualifier q) .object)
  | nullObject {q : Qualifier} {mask : Operand} (single : q = .inPort ∨ q = .outerVlanId) :
      Flaw k (.field q ⟨.object 0, mask⟩) (.wrongOperand (.qualifier q) .nonNullObject)
  | unbound {q : Qualifier} {p : Pattern} (unbound : q ∈ unboundQualifiers) :
      Flaw k (.field q p) (.unsupported q k)
  | redirect : Flaw k (.redirect 0) (.wrongOperand .redirect .redirectTarget)

section Binding
variable {k : Kind} {q : Qualifier} {value : Operand} {cause : RequestError}

theorem cases_of_reference (h : q.isReference = true) :
    q = .inPorts ∨ (q = .inPort ∨ q = .outerVlanId) ∨ q ∈ unboundQualifiers := by
  cases q with
  | inPorts | inPort | outerVlanId => decide
  | outPorts | outPort | innerVlanId => decide
  | _ => cases h

theorem effect_of_reference (k : Kind) (p : Pattern) (h : q.isReference = true) :
    (Attribute.field q p).effect k = (boundObjects k q p.value).map .bind :=
  effect_of_binding p (role_eq_binding_iff.mpr h)

theorem reference_of_single (h : q = .inPort ∨ q = .outerVlanId) : q.isReference = true := by
  rcases h with rfl | rfl <;> rfl

theorem reference_of_unbound (h : q ∈ unboundQualifiers) : q.isReference = true := by
  have hall : ∀ q ∈ unboundQualifiers, q.isReference = true := by decide
  exact hall q h

theorem boundObjects_of_ports (k : Kind) (value : Operand) :
    boundObjects k .inPorts value =
      match value with
      | .objects ids =>
        if 0 ∈ ids then .error (.wrongOperand (.qualifier .inPorts) .nonNullObjects)
        else .ok ids
      | _ => .error (.wrongOperand (.qualifier .inPorts) .objectList) := by
  cases value <;> rfl

theorem boundObjects_of_single (k : Kind) (value : Operand)
    (h : q = .inPort ∨ q = .outerVlanId) :
    boundObjects k q value =
      match value with
      | .object id =>
        if id = 0 then .error (.wrongOperand (.qualifier q) .nonNullObject) else .ok [id]
      | _ => .error (.wrongOperand (.qualifier q) .object) := by
  rcases h with rfl | rfl <;> cases value <;> rfl

theorem boundObjects_of_unbound (k : Kind) (value : Operand) (h : q ∈ unboundQualifiers) :
    boundObjects k q value = .error (.unsupported q k) := by
  simp only [unboundQualifiers, List.mem_cons, List.not_mem_nil, or_false] at h
  rcases h with rfl | rfl | rfl <;> rfl

/-- Objects that cannot be bound are flaws of the attribute that names them. -/
theorem flaw_of_boundObjects {p : Pattern} (hreference : q.isReference = true)
    (h : boundObjects k q p.value = .error cause) : Flaw k (.field q p) cause := by
  obtain ⟨value, mask⟩ := p
  rcases cases_of_reference hreference with rfl | hsingle | hunbound
  · simp only [boundObjects_of_ports] at h
    split at h
    next ids =>
      split at h
      next hnull =>
        cases h
        exact .nullAmong hnull
      next => cases h
    next hother =>
      cases h
      refine .notObjects fun hclass => ?_
      cases value with
      | objects ids => exact hother ids rfl
      | _ => cases hclass
  · simp only [boundObjects_of_single k value hsingle] at h
    split at h
    next id =>
      split at h
      next hnull =>
        cases h
        rw [hnull]
        exact .nullObject hsingle
      next => cases h
    next hother =>
      cases h
      refine .notObject hsingle fun hclass => ?_
      cases value with
      | object id => exact hother id rfl
      | _ => cases hclass
  · rw [boundObjects_of_unbound k value hunbound] at h
    cases h
    exact .unbound hunbound

end Binding

section Effects
variable {k : Kind} {a : Attribute} {cause : RequestError}

theorem flaw_of_effect (h : a.effect k = .error cause) : Flaw k a cause := by
  cases a with
  | field q p =>
    cases hrole : role k q with
    | refused =>
      rw [effect_of_refused p hrole] at h
      cases h
      exact .refused hrole
    | keyed f =>
      rw [effect_of_keyed p hrole, map_eq_error_iff, ofPattern_eq_error_iff] at h
      rcases h with ⟨hvalue, rfl⟩ | ⟨hvalue, hmask, rfl⟩
      · exact .value hrole hvalue
      · exact .mask hrole hvalue hmask
    | binding =>
      rw [effect_of_binding p hrole, map_eq_error_iff] at h
      exact flaw_of_boundObjects (role_eq_binding_iff.mp hrole) h
  | redirect target =>
    by_cases hnull : target = 0
    · rw [effect_of_null_redirect k hnull] at h
      cases h
      rw [hnull]
      exact .redirect
    · rw [effect_of_redirect k hnull] at h
      cases h
  | _ => cases h

theorem effect_of_flaw (h : Flaw k a cause) : a.effect k = .error cause := by
  cases h with
  | @refused q p hrefused => exact effect_of_refused p hrefused
  | @value q f p hkeyed hwrong =>
    rw [effect_of_keyed p hkeyed, map_eq_error_iff, ofPattern_eq_error_iff]
    exact Or.inl ⟨hwrong, rfl⟩
  | @mask q f p hkeyed hright hwrong =>
    rw [effect_of_keyed p hkeyed, map_eq_error_iff, ofPattern_eq_error_iff]
    exact Or.inr ⟨hright, hwrong, rfl⟩
  | @notObjects p hwrong =>
    rw [effect_of_reference k p rfl, boundObjects_of_ports]
    split
    next ids hvalue =>
      rw [hvalue] at hwrong
      exact absurd rfl hwrong
    next => rfl
  | @nullAmong ids mask hnull =>
    rw [effect_of_reference k _ rfl, boundObjects_of_ports]
    simp only [if_pos hnull]
    rfl
  | @notObject q p hsingle hwrong =>
    rw [effect_of_reference k p (reference_of_single hsingle),
      boundObjects_of_single k p.value hsingle]
    split
    next id hvalue =>
      rw [hvalue] at hwrong
      exact absurd rfl hwrong
    next => rfl
  | @nullObject q mask hsingle =>
    rw [effect_of_reference k _ (reference_of_single hsingle),
      boundObjects_of_single k _ hsingle]
    rfl
  | @unbound q p hunbound =>
    rw [effect_of_reference k p (reference_of_unbound hunbound),
      boundObjects_of_unbound k p.value hunbound]
    rfl
  | redirect => exact effect_of_null_redirect k rfl

/-- An attribute fails with its flaw. -/
theorem effect_eq_error_iff : a.effect k = .error cause ↔ Flaw k a cause :=
  ⟨flaw_of_effect, effect_of_flaw⟩

/-- A flaw is put down to an operand or to a qualifier. -/
theorem cause_of_flaw (h : Flaw k a cause) :
    (∃ subject wanted, cause = .wrongOperand subject wanted) ∨
      ∃ q, cause = .unsupported q k := by
  cases h with
  | refused | unbound => exact Or.inr ⟨_, rfl⟩
  | _ => exact Or.inl ⟨_, _, rfl⟩

end Effects

end AccessList.Proofs.AttributeFlaws
