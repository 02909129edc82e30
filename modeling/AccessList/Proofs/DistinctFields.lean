import AccessList.Proofs.ErrorPrecedence
import Mathlib.Data.List.Nodup

/-!
Rules in which every field is matched once. On a list of some kind two qualifiers never stand
for one field, so attributes that repeat no qualifier of a field repeat no field either. There
are then no more keys than qualifiers, for which the standard settings have room.
-/
namespace AccessList.Proofs.DistinctFields

open AttributeEffects Attributes ErrorPrecedence Errors Fields Handles Keys Limits Operands
  Qualifiers Roles RuleMaking Rules

/-- The qualifier by which an attribute matches a field of the list. -/
def keyedBy? (k : Kind) : Attribute → Option Qualifier
  | .field q _ =>
    match role k q with
    | .keyed _ => some q
    | _ => none
  | _ => none

/-- One for each attribute that matches a field, so a qualifier may come twice. -/
def keyedQualifiers (k : Kind) (attrs : List Attribute) : List Qualifier :=
  attrs.filterMap (keyedBy? k)

section Fields
variable {k : Kind} {attrs : List Attribute}

theorem qualifier_of_field {q q' : Qualifier} {f : Field} (h : field? k q = some f)
    (h' : field? k q' = some f) : q = q' := by
  cases k <;> cases q <;> cases h <;> cases q' <;> cases h' <;> rfl

/-- On one list a field has one qualifier, and a qualifier one field. -/
theorem biUnique_keyed (k : Kind) : Relator.BiUnique fun q f => role k q = .keyed f := by
  constructor
  · intro q f q' h h'
    exact qualifier_of_field (role_eq_keyed_iff.mp h) (role_eq_keyed_iff.mp h')
  · intro q f f' h h'
    rw [h] at h'
    exact Role.keyed.inj h'

theorem keyed_matched (k : Kind) (a : Attribute) :
    Option.Rel (fun q m => role k q = .keyed m.1) (keyedBy? k a) (matched? k a) := by
  cases a with
  | field q p =>
    cases hrole : role k q with
    | keyed f =>
      simp only [keyedBy?, matched?, hrole]
      exact .some hrole
    | refused | binding =>
      simp only [keyedBy?, matched?, hrole]
      exact .none
  | _ => exact .none

theorem keyed_matchedFields (k : Kind) (attrs : List Attribute) :
    List.Forall₂ (fun q m => role k q = .keyed m.1) (keyedQualifiers k attrs)
      (matchedFields k attrs) := by
  have hsame : List.Forall₂ (· = ·) attrs attrs := List.forall₂_same.mpr fun _ _ => rfl
  refine List.rel_filterMap ?_ hsame
  rintro a b rfl
  exact keyed_matched k a

theorem nodup_matched (h : (keyedQualifiers k attrs).Nodup) :
    ((matchedFields k attrs).map Prod.fst).Nodup := by
  have hfields : List.Forall₂ (fun q f => role k q = .keyed f) (keyedQualifiers k attrs)
      ((matchedFields k attrs).map Prod.fst) :=
    List.forall₂_map_right_iff.mpr (keyed_matchedFields k attrs)
  exact (List.rel_nodup (biUnique_keyed k) hfields).mp h

/-- The standard settings have room for every qualifier once. -/
theorem length_matched_le (h : (keyedQualifiers k attrs).Nodup) :
    (matchedFields k attrs).length ≤ standard.maxKeys := by
  have hall : (keyedQualifiers k attrs).length ≤ Qualifier.all.length :=
    h.length_le_of_subset fun q _ => Qualifier.mem_all q
  rw [(keyed_matchedFields k attrs).length_eq] at hall
  exact hall

end Fields

section Limit
variable {k : Kind} {attrs : List Attribute} {settings : Settings}

/-- The walk comes to its limit only at an attribute for one key more. -/
theorem length_of_tooManyKeys {t : TableHandle} {max : Nat}
    (h : Rule.ofAttributes settings t k attrs = .error (.tooManyKeys max)) :
    settings.maxKeys < (matchedFields k attrs).length := by
  rcases ofAttributes_eq_error_iff.mp h with ⟨before, a, after, rfl, hstops⟩ | ⟨-, hnone⟩
  · cases hstops.halts with
    | flawed flaw =>
      rcases AttributeFlaws.cause_of_flaw flaw with ⟨_, _, hcause⟩ | ⟨_, hcause⟩ <;> cases hcause
    | @full m acceptable keyed full =>
      have hone : matchedFields k (before ++ a :: after) =
          matchedFields k before ++ m :: matchedFields k after := by
        unfold matchedFields
        rw [List.filterMap_append, List.filterMap_cons_some keyed]
      rw [hone, List.length_append, List.length_cons]
      omega
  · cases hnone

end Limit

/-- The attributes are never too many, and all keys of the rule that they make are on different
fields. -/
structure MatchedOnce (settings : Settings) (k : Kind) (attrs : List Attribute) : Prop where
  fits : ∀ t max, Rule.ofAttributes settings t k attrs ≠ .error (.tooManyKeys max)
  distinct : ∀ t rule, Rule.ofAttributes settings t k attrs = .ok rule →
    rule.keys.Pairwise fun key key' => key.field ≠ key'.field

/-- Whatever else the attributes repeat: objects, priorities, tables and verdicts. -/
theorem fields_matched_once {settings : Settings} {k : Kind} {attrs : List Attribute}
    (room : standard.maxKeys ≤ settings.maxKeys) (h : (keyedQualifiers k attrs).Nodup) :
    MatchedOnce settings k attrs where
  fits t max hlimit := by
    have hmore := length_of_tooManyKeys hlimit
    have hfew := length_matched_le h
    omega
  distinct t rule hmade := by
    have hfields : (rule.keys.map Key.field).Nodup := by
      rw [(described_of_ofAttributes hmade).fields]
      exact nodup_matched h
    exact List.pairwise_map.mp hfields

/-- All that an IPv6 list can match, with more attributes than the standard settings allow
keys. -/
def everyField : List Attribute :=
  let number : Pattern := ⟨.scalar16 6, .scalar16 7⟩
  let address : Pattern := .ipv6 1 1
  [.table 7, .field .srcIpv6 address, .field .inPort (.object 5), .field .dstIpv6 address] ++
    List.replicate 30 (.field .inPort (.object 5)) ++
    ([Qualifier.l4SrcPort, .l4DstPort, .etherType, .ipProtocol, .ttl, .tos, .tcpFlags,
      .ipv6FlowLabel].map fun q => .field q number) ++ [.priority 1, .flood, .priority 2, .flood]

theorem fields_matched_once_everyField :
    ((Rule.ofAttributes standard ⟨7⟩ .ipv6 everyField).map fun rule =>
        (rule.keys.length, rule.references.length)) = .ok (10, 31) ∧
      standard.maxKeys ≤ standard.maxKeys ∧ (keyedQualifiers .ipv6 everyField).Nodup ∧
      MatchedOnce standard .ipv6 everyField := by
  have hnodup : (keyedQualifiers .ipv6 everyField).Nodup := by decide
  exact ⟨rfl, Nat.le_refl _, hnodup, fields_matched_once (Nat.le_refl _) hnodup⟩

end AccessList.Proofs.DistinctFields
