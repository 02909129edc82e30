import AccessList.Proofs.RuleMaking

/-!
The kind that fits a set of qualifiers against the rules that a table of that kind takes. Both
go by the role of a qualifier in the kind, but a rule cannot name all the objects that a table
may be opened for. Three qualifiers apart, a rule on a table of the fitting kind is never
refused for a qualifier. Where no kind fits, each kind has a qualifier that no rule on it can
have.
-/
namespace AccessList.Proofs.FittingKinds

open AttributeEffects Attributes Errors Fields Handles Keys Limits Operands Qualifiers Roles
  RuleMaking Rules

theorem role_of_fitting {qs : List Qualifier} {k : Kind} (h : fitting? qs = some k) :
    ∀ q ∈ qs, role k q ≠ .refused := by
  have hholds : holds k qs = true := List.find?_some (p := fun k => holds k qs) h
  exact holds_iff.mp hholds

/-- Where no kind fits, every kind refuses one of the qualifiers. -/
theorem exists_refused_of_unfit {qs : List Qualifier} (h : fitting? qs = none) (k : Kind) :
    ∃ q ∈ qs, role k q = .refused := by
  have hnot : ¬ holds k qs = true := List.find?_eq_none.mp h k (Kind.mem_all k)
  rw [holds_iff] at hnot
  push Not at hnot
  exact hnot

/-- The binding qualifiers for which a table can be opened but of which no rule can name an
object. -/
def unboundQualifiers : List Qualifier := [.outPorts, .outPort, .innerVlanId]

theorem unbound_of_boundObjects {k k' : Kind} {q q' : Qualifier} {value : Operand}
    (hreference : q.isReference = true)
    (h : boundObjects k q value = .error (.unsupported q' k')) : q ∈ unboundQualifiers := by
  cases q with
  | outPorts | outPort | innerVlanId => decide
  | inPorts | inPort | outerVlanId =>
    simp only [boundObjects] at h
    split at h
    next => cases h
    next => split at h <;> cases h
  | _ => cases hreference

/-- A key that cannot be made is put down to its operands. -/
theorem ofPattern_ne_unsupported (f : Field) (p : Pattern) (q : Qualifier) (k : Kind) :
    Key.ofPattern f p ≠ .error (.unsupported q k) := by
  intro h
  unfold Key.ofPattern at h
  split at h
  next => cases h
  next =>
    split at h
    next => cases h
    next => cases h

/-- Only a field whose qualifier is refused or unbound is refused for its qualifier. -/
theorem field_of_unsupported {k k' : Kind} {a : Attribute} {q' : Qualifier}
    (h : a.effect k = .error (.unsupported q' k')) :
    ∃ q p, a = .field q p ∧ (role k q = .refused ∨ q ∈ unboundQualifiers) := by
  cases a with
  | field q p =>
    refine ⟨q, p, rfl, ?_⟩
    cases hrole : role k q with
    | refused => exact Or.inl rfl
    | keyed f =>
      rw [effect_of_keyed p hrole, map_eq_error_iff] at h
      exact absurd h (ofPattern_ne_unsupported f p q' k')
    | binding =>
      rw [effect_of_binding p hrole, map_eq_error_iff] at h
      exact Or.inr (unbound_of_boundObjects (role_eq_binding_iff.mp hrole) h)
  | redirect target =>
    by_cases hzero : target = 0
    · rw [effect_of_null_redirect k hzero] at h
      cases h
    · rw [effect_of_redirect k hzero] at h
      cases h
  | _ => cases h

theorem field_of_ofAttributes_unsupported {s : Settings} {t : TableHandle} {k k' : Kind}
    {attrs : List Attribute} {q' : Qualifier}
    (h : Rule.ofAttributes s t k attrs = .error (.unsupported q' k')) :
    ∃ q p, .field q p ∈ attrs ∧ (role k q = .refused ∨ q ∈ unboundQualifiers) := by
  rcases error_of_ofAttributes h with ⟨a, ha, heffect⟩ | hlimit | hkeys
  · obtain ⟨q, p, rfl, hrole⟩ := field_of_unsupported heffect
    exact ⟨q, p, ha, hrole⟩
  · cases hlimit
  · cases hkeys

theorem not_acceptable_of_refused {k : Kind} {q : Qualifier} (h : role k q = .refused)
    (p : Pattern) : ¬ Acceptable k (.field q p) := by
  intro hacceptable
  obtain ⟨e, heffect⟩ := exists_effect_of_acceptable hacceptable
  rw [effect_of_refused p h] at heffect
  cases heffect

/-- A rule with a field that the kind refuses is not made, whatever else is said of it. -/
theorem exists_error_of_refused {k : Kind} {q : Qualifier} (h : role k q = .refused)
    {p : Pattern} {attrs : List Attribute} (hmem : .field q p ∈ attrs) (s : Settings)
    (t : TableHandle) : ∃ cause, Rule.ofAttributes s t k attrs = .error cause := by
  cases hmade : Rule.ofAttributes s t k attrs with
  | error cause => exact ⟨cause, rfl⟩
  | ok rule =>
    have hacceptable := (accepted_of_ofAttributes hmade).acceptable _ hmem
    exact absurd hacceptable (not_acceptable_of_refused h p)

/-- Opening tables and making rules agree on qualifiers. A table of the fitting kind refuses
none of those it was opened for, and qualifiers that fit no kind contain one for each kind
that spoils every rule on it. -/
theorem fitting_agrees_with_rules (qs : List Qualifier) :
    (∀ k, fitting? qs = some k → ∀ attrs : List Attribute,
      (∀ q p, .field q p ∈ attrs → q ∈ qs ∧ q ∉ unboundQualifiers) →
      ∀ s t q k', Rule.ofAttributes s t k attrs ≠ .error (.unsupported q k')) ∧
    (fitting? qs = none → ∀ k, ∃ q ∈ qs, ∀ p (attrs : List Attribute), .field q p ∈ attrs →
      ∀ s t, ∃ cause, Rule.ofAttributes s t k attrs = .error cause) := by
  constructor
  · intro k hfit attrs hfields s t q' k' hunsupported
    obtain ⟨q, p, hmem, hrole⟩ := field_of_ofAttributes_unsupported hunsupported
    obtain ⟨hq, hbound⟩ := hfields q p hmem
    rcases hrole with hrefused | hunbound
    · exact role_of_fitting hfit q hq hrefused
    · exact hbound hunbound
  · intro hunfit k
    obtain ⟨q, hq, hrefused⟩ := exists_refused_of_unfit hunfit k
    exact ⟨q, hq, fun p attrs hmem s t => exists_error_of_refused hrefused hmem s t⟩

/-- A rule on the time to live that also names an object, which is null. -/
def nullPort : List Attribute :=
  [.table 5, .field .ttl ⟨.scalar8 64, .scalar8 255⟩, .field .inPort ⟨.object 0, .object 0⟩,
    .redirect 0]

/-- The object is what stands in the way of that rule, not its qualifier. -/
theorem fitting_agrees_with_rules_nullPort :
    (fitting? [.srcIp, .outPort, .ttl, .inPort] = some .ipv4 ∧
      (∀ q p, .field q p ∈ nullPort →
        q ∈ [.srcIp, .outPort, .ttl, .inPort] ∧ q ∉ unboundQualifiers) ∧
      Rule.ofAttributes standard ⟨5⟩ .ipv4 nullPort =
        .error (.wrongOperand (.qualifier .inPort) .nonNullObject) ∧
      Rule.ofAttributes standard ⟨5⟩ .ipv4 nullPort ≠ .error (.unsupported .inPort .ipv4)) ∧
    fitting? [.ttl, .srcMac] = none ∧
      ∃ q ∈ [Qualifier.ttl, .srcMac], ∀ p (attrs : List Attribute), .field q p ∈ attrs →
        ∀ s t, ∃ cause, Rule.ofAttributes s t .mac attrs = .error cause := by
  have hfit : fitting? [.srcIp, .outPort, .ttl, .inPort] = some .ipv4 := by decide
  have hfields : ∀ q p, .field q p ∈ nullPort →
      q ∈ [.srcIp, .outPort, .ttl, .inPort] ∧ q ∉ unboundQualifiers := by
    intro q p hmem
    simp only [nullPort, List.mem_cons, reduceCtorEq, Attribute.field.injEq, List.not_mem_nil,
      false_or, or_false] at hmem
    rcases hmem with ⟨rfl, -⟩ | ⟨rfl, -⟩
    · decide
    · decide
  have hunfit : fitting? [.ttl, .srcMac] = none := by decide
  exact ⟨⟨hfit, hfields, by decide, (fitting_agrees_with_rules _).1 .ipv4 hfit nullPort hfields
    standard ⟨5⟩ .inPort .ipv4⟩, hunfit, (fitting_agrees_with_rules _).2 hunfit .mac⟩

end AccessList.Proofs.FittingKinds
