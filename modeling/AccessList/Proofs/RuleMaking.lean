import AccessList.Proofs.AttributeEffects
import AccessList.Rules
import Mathlib.Data.List.Forall2

/-!
Which rule a list of attributes gives. A rule is made exactly when all attributes are
acceptable, the limit leaves room for their keys and a rule without keys is allowed where
there are none. The rule then has one key for each keyed field, in order, the last priority,
the last verdict, and the objects from the last one named to the first.
-/
namespace AccessList.Proofs.RuleMaking

open AttributeEffects Attributes Errors Fields Handles Keys Limits Operands Rules Verdicts

def keyCount (es : List Effect) : Nat := (es.filterMap Effect.key?).length

@[simp] theorem keyCount_nil : keyCount [] = 0 := rfl

theorem keyCount_cons (e : Effect) (es : List Effect) :
    keyCount (e :: es) = e.key?.toList.length + keyCount es := by
  unfold keyCount
  rw [List.filterMap_cons]
  cases e.key? with
  | none => simp
  | some key => simp [Nat.add_comm]

theorem effectsFrom_cons {k : Kind} {maxKeys count : Nat} {a : Attribute} {e : Effect}
    (rest : List Attribute) (h : a.effect k = .ok e) :
    effectsFrom k maxKeys count (a :: rest) =
      if e.key?.isSome && maxKeys ≤ count then .error (.tooManyKeys maxKeys)
      else (effectsFrom k maxKeys (count + e.key?.toList.length) rest).map (e :: ·) := by
  simp only [effectsFrom, h]

/-- The walk collects the effect of every attribute as long as the keys stay in the limit. -/
theorem effectsFrom_eq_ok_iff {k : Kind} {maxKeys count : Nat} {attrs : List Attribute}
    {es : List Effect} (hcount : count ≤ maxKeys) :
    effectsFrom k maxKeys count attrs = .ok es ↔
      List.Forall₂ (fun a e => a.effect k = .ok e) attrs es ∧
      count + keyCount es ≤ maxKeys := by
  induction attrs generalizing count es with
  | nil =>
    constructor
    · intro h
      cases h
      exact ⟨.nil, by simpa using hcount⟩
    · rintro ⟨h, -⟩
      cases h
      rfl
  | cons a rest ih =>
    rw [List.forall₂_cons_left_iff]
    cases heffect : a.effect k with
    | error cause => simp [effectsFrom, heffect]
    | ok e =>
      rw [effectsFrom_cons rest heffect]
      by_cases hfull : (e.key?.isSome && decide (maxKeys ≤ count)) = true
      · rw [if_pos hfull]
        simp only [Bool.and_eq_true, decide_eq_true_eq] at hfull
        obtain ⟨key, hkey⟩ := Option.isSome_iff_exists.mp hfull.1
        simp only [reduceCtorEq, false_iff]
        rintro ⟨⟨e', es', he, -, rfl⟩, hroom⟩
        cases he
        rw [keyCount_cons, hkey, Option.toList_some, List.length_singleton] at hroom
        omega
      · rw [if_neg hfull, map_eq_ok_iff]
        have hnext : count + e.key?.toList.length ≤ maxKeys := by
          cases hkey : e.key? with
          | none => simpa using hcount
          | some key =>
            simp only [hkey, Option.isSome_some, Bool.true_and, decide_eq_true_eq] at hfull
            simp only [Option.toList_some, List.length_singleton]
            omega
        constructor
        · rintro ⟨es', hwalk, rfl⟩
          obtain ⟨heffects, hroom⟩ := (ih hnext).mp hwalk
          refine ⟨⟨e, es', rfl, heffects, rfl⟩, ?_⟩
          rw [keyCount_cons]
          omega
        · rintro ⟨⟨e', es', he, heffects, rfl⟩, hroom⟩
          cases he
          rw [keyCount_cons] at hroom
          exact ⟨es', (ih hnext).mpr ⟨heffects, by omega⟩, rfl⟩

/-- The walk ends at an attribute that is an error, or at the limit. -/
theorem error_of_effectsFrom {k : Kind} {maxKeys count : Nat} {attrs : List Attribute}
    {cause : RequestError} (h : effectsFrom k maxKeys count attrs = .error cause) :
    (∃ a ∈ attrs, a.effect k = .error cause) ∨ cause = .tooManyKeys maxKeys := by
  induction attrs generalizing count with
  | nil => cases h
  | cons a rest ih =>
    cases heffect : a.effect k with
    | error first =>
      simp only [effectsFrom, heffect] at h
      cases h
      exact Or.inl ⟨a, List.mem_cons_self, heffect⟩
    | ok e =>
      rw [effectsFrom_cons rest heffect] at h
      split at h
      next =>
        cases h
        exact Or.inr rfl
      next =>
        rw [map_eq_error_iff] at h
        rcases ih h with ⟨b, hb, herror⟩ | hlimit
        · exact Or.inl ⟨b, List.mem_cons_of_mem a hb, herror⟩
        · exact Or.inr hlimit

theorem effects_eq_ok_iff {k : Kind} {maxKeys : Nat} {attrs : List Attribute}
    {es : List Effect} :
    effects k maxKeys attrs = .ok es ↔
      List.Forall₂ (fun a e => a.effect k = .ok e) attrs es ∧ keyCount es ≤ maxKeys := by
  have h : effectsFrom k maxKeys 0 attrs = .ok es ↔
      List.Forall₂ (fun a e => a.effect k = .ok e) attrs es ∧ 0 + keyCount es ≤ maxKeys :=
    effectsFrom_eq_ok_iff (Nat.zero_le maxKeys)
  rwa [Nat.zero_add] at h

/-- The fields that attributes match, with the patterns they match them with. -/
def matchedFields (k : Kind) (attrs : List Attribute) : List (Field × Pattern) :=
  attrs.filterMap (matched? k)

/-- The conditions on which a rule is made. -/
structure Accepted (s : Settings) (k : Kind) (attrs : List Attribute) : Prop where
  acceptable : ∀ a ∈ attrs, Acceptable k a
  room : (matchedFields k attrs).length ≤ s.maxKeys
  keyed : matchedFields k attrs ≠ [] ∨ s.keyless = .allowed

/-- The rule that attributes describe. -/
structure Described (t : TableHandle) (k : Kind) (attrs : List Attribute) (rule : Rule) :
    Prop where
  table : rule.table = t
  kind : rule.kind = k
  priority : rule.priority = (attrs.filterMap priority?).getLast?.getD 0
  keys : List.Forall₂ (fun m key => Key.ofPattern m.1 m.2 = .ok key)
    (matchedFields k attrs) rule.keys
  fields : rule.keys.map Key.field = (matchedFields k attrs).map Prod.fst
  verdict : rule.verdict = (attrs.filterMap asked?).getLast?.getD ⟨.nop, none⟩
  target : ∀ object, rule.verdict.target = some object ↔
    (attrs.filterMap asked?).getLast? = some ⟨.redirect, some object⟩
  references : rule.references = (attrs.flatMap namedObjects).reverse

theorem filterMap_eq_of_forall₂ {α β γ : Type} {R : α → β → Prop} {f : α → Option γ}
    {g : β → Option γ} {as : List α} {bs : List β} (h : List.Forall₂ R as bs)
    (hfg : ∀ a b, R a b → f a = g b) : as.filterMap f = bs.filterMap g := by
  induction h with
  | nil => rfl
  | @cons a b as bs hab _ ih => rw [List.filterMap_cons, List.filterMap_cons, hfg a b hab, ih]

theorem flatMap_eq_of_forall₂ {α β γ : Type} {R : α → β → Prop} {f : α → List γ}
    {g : β → List γ} {as : List α} {bs : List β} (h : List.Forall₂ R as bs)
    (hfg : ∀ a b, R a b → f a = g b) : as.flatMap f = bs.flatMap g := by
  induction h with
  | nil => rfl
  | @cons a b as bs hab _ ih => rw [List.flatMap_cons, List.flatMap_cons, hfg a b hab, ih]

theorem map_field_of_patterns {ms : List (Field × Pattern)} {keys : List Key}
    (h : List.Forall₂ (fun m key => Key.ofPattern m.1 m.2 = .ok key) ms keys) :
    keys.map Key.field = ms.map Prod.fst := by
  induction h with
  | nil => rfl
  | cons hkey _ ih => rw [List.map_cons, List.map_cons, Key.field_of_ofPattern hkey, ih]

/-- A target is left by a redirect only, and it is the one of that redirect. -/
theorem asked?_of_target {a : Attribute} {v : Verdict} {object : ObjectId}
    (hasked : asked? a = some v) (htarget : v.target = some object) :
    v = ⟨.redirect, some object⟩ := by
  cases a with
  | redirect target =>
    cases hasked
    cases htarget
    rfl
  | packet a => cases a <;> cases hasked <;> cases htarget
  | flood =>
    cases hasked
    cases htarget
  | _ => cases hasked

theorem target_of_last {attrs : List Attribute} {object : ObjectId} :
    ((attrs.filterMap asked?).getLast?.getD ⟨.nop, none⟩).target = some object ↔
      (attrs.filterMap asked?).getLast? = some ⟨.redirect, some object⟩ := by
  cases hlast : (attrs.filterMap asked?).getLast? with
  | none => simp
  | some v =>
    have hmem : v ∈ attrs.filterMap asked? := List.mem_of_getLast? hlast
    obtain ⟨a, -, hasked⟩ := List.mem_filterMap.mp hmem
    simp only [Option.getD_some, Option.some.injEq]
    constructor
    · exact asked?_of_target hasked
    · rintro rfl
      rfl

theorem described_ofEffects {k : Kind} {attrs : List Attribute} {es : List Effect}
    (t : TableHandle) (h : List.Forall₂ (Adds k) attrs es) :
    Described t k attrs (Rule.ofEffects t k es) := by
  have hkeys : List.Forall₂ (fun m key => Key.ofPattern m.1 m.2 = .ok key)
      (matchedFields k attrs) (es.filterMap Effect.key?) :=
    List.rel_filterMap (fun _ _ hadds => hadds.key) h
  have hverdict : attrs.filterMap asked? = es.filterMap Effect.verdict? :=
    filterMap_eq_of_forall₂ h (fun _ _ hadds => hadds.verdict)
  have hpriority : attrs.filterMap priority? = es.filterMap Effect.priority? :=
    filterMap_eq_of_forall₂ h (fun _ _ hadds => hadds.priority)
  have hobjects : attrs.flatMap namedObjects = es.flatMap Effect.objects :=
    flatMap_eq_of_forall₂ h (fun _ _ hadds => hadds.objects)
  refine ⟨rfl, rfl, ?_, hkeys, map_field_of_patterns hkeys, ?_, ?_, ?_⟩
  · rw [hpriority]
    rfl
  · rw [hverdict]
    rfl
  · intro object
    rw [← target_of_last, hverdict]
    rfl
  · rw [hobjects]
    rfl

theorem ofAttributes_of_effects {s : Settings} {k : Kind} {attrs : List Attribute}
    {es : List Effect} (t : TableHandle) (h : effects k s.maxKeys attrs = .ok es) :
    Rule.ofAttributes s t k attrs =
      if (Rule.ofEffects t k es).keys = [] ∧ s.keyless = .rejected then .error .noKeys
      else .ok (Rule.ofEffects t k es) := by
  simp only [Rule.ofAttributes, h]

theorem ofAttributes_eq_ok_iff {s : Settings} {t : TableHandle} {k : Kind}
    {attrs : List Attribute} {rule : Rule} :
    Rule.ofAttributes s t k attrs = .ok rule ↔
      ∃ es, effects k s.maxKeys attrs = .ok es ∧ rule = Rule.ofEffects t k es ∧
        (rule.keys ≠ [] ∨ s.keyless = .allowed) := by
  cases heffects : effects k s.maxKeys attrs with
  | error cause => simp [Rule.ofAttributes, heffects]
  | ok es =>
    rw [ofAttributes_of_effects t heffects]
    have hkeyless : s.keyless = .allowed ↔ ¬ s.keyless = .rejected := by
      cases s.keyless <;> simp
    by_cases hempty : (Rule.ofEffects t k es).keys = [] ∧ s.keyless = .rejected
    · rw [if_pos hempty]
      simp only [reduceCtorEq, false_iff]
      rintro ⟨es', hes, rfl, hkeyed⟩
      cases hes
      rcases hkeyed with hkeys | hallowed
      · exact hkeys hempty.1
      · exact hkeyless.mp hallowed hempty.2
    · rw [if_neg hempty]
      have hkeyed : (Rule.ofEffects t k es).keys ≠ [] ∨ s.keyless = .allowed := by
        rw [hkeyless]
        exact not_and_or.mp hempty
      constructor
      · intro h
        cases h
        exact ⟨es, rfl, rfl, hkeyed⟩
      · rintro ⟨es', hes, rfl, -⟩
        cases hes
        rfl

theorem error_of_ofAttributes {s : Settings} {t : TableHandle} {k : Kind}
    {attrs : List Attribute} {cause : RequestError}
    (h : Rule.ofAttributes s t k attrs = .error cause) :
    (∃ a ∈ attrs, a.effect k = .error cause) ∨ cause = .tooManyKeys s.maxKeys ∨
      cause = .noKeys := by
  cases heffects : effects k s.maxKeys attrs with
  | error first =>
    simp only [Rule.ofAttributes, heffects] at h
    cases h
    rcases error_of_effectsFrom heffects with hattr | hlimit
    · exact Or.inl hattr
    · exact Or.inr (Or.inl hlimit)
  | ok es =>
    rw [ofAttributes_of_effects t heffects] at h
    split at h
    next =>
      cases h
      exact Or.inr (Or.inr rfl)
    next => cases h

theorem walked_of_effects {k : Kind} {attrs : List Attribute} {es : List Effect}
    (h : List.Forall₂ (fun a e => a.effect k = .ok e) attrs es) :
    (∀ a ∈ attrs, Acceptable k a) ∧ List.Forall₂ (Adds k) attrs es :=
  (List.forall₂_and_left _ _).mp (h.imp fun _ _ he => acceptable_of_effect he)

theorem described_of_ofAttributes {s : Settings} {t : TableHandle} {k : Kind}
    {attrs : List Attribute} {rule : Rule} (h : Rule.ofAttributes s t k attrs = .ok rule) :
    Described t k attrs rule := by
  obtain ⟨es, heffects, rfl, -⟩ := ofAttributes_eq_ok_iff.mp h
  obtain ⟨hwalk, -⟩ := effects_eq_ok_iff.mp heffects
  exact described_ofEffects t (walked_of_effects hwalk).2

theorem accepted_of_ofAttributes {s : Settings} {t : TableHandle} {k : Kind}
    {attrs : List Attribute} {rule : Rule} (h : Rule.ofAttributes s t k attrs = .ok rule) :
    Accepted s k attrs := by
  have hkeys := (described_of_ofAttributes h).keys.length_eq
  obtain ⟨es, heffects, rfl, hkeyed⟩ := ofAttributes_eq_ok_iff.mp h
  obtain ⟨hwalk, hroom⟩ := effects_eq_ok_iff.mp heffects
  refine ⟨(walked_of_effects hwalk).1, ?_, ?_⟩
  · rw [hkeys]
    exact hroom
  · rcases hkeyed with hne | hallowed
    · refine Or.inl fun hnil => hne ?_
      rw [hnil] at hkeys
      exact List.length_eq_zero_iff.mp hkeys.symm
    · exact Or.inr hallowed

theorem exists_effects_of_acceptable {k : Kind} {attrs : List Attribute}
    (h : ∀ a ∈ attrs, Acceptable k a) :
    ∃ es, List.Forall₂ (fun a e => a.effect k = .ok e) attrs es := by
  induction attrs with
  | nil => exact ⟨[], .nil⟩
  | cons a rest ih =>
    obtain ⟨e, he⟩ := exists_effect_of_acceptable (h a List.mem_cons_self)
    obtain ⟨es, hes⟩ := ih fun b hb => h b (List.mem_cons_of_mem a hb)
    exact ⟨e :: es, .cons he hes⟩

theorem exists_ofAttributes_of_accepted {s : Settings} {k : Kind} {attrs : List Attribute}
    (t : TableHandle) (h : Accepted s k attrs) :
    ∃ rule, Rule.ofAttributes s t k attrs = .ok rule := by
  obtain ⟨es, hwalk⟩ := exists_effects_of_acceptable h.acceptable
  have hkeys := (described_ofEffects t (walked_of_effects hwalk).2).keys.length_eq
  have hroom : keyCount es ≤ s.maxKeys := by
    have hlimit := h.room
    rw [hkeys] at hlimit
    exact hlimit
  refine ⟨Rule.ofEffects t k es, ofAttributes_eq_ok_iff.mpr ⟨es, ?_, rfl, ?_⟩⟩
  · exact effects_eq_ok_iff.mpr ⟨hwalk, hroom⟩
  · rcases h.keyed with hne | hallowed
    · refine Or.inl fun hnil => hne ?_
      rw [hnil] at hkeys
      exact List.length_eq_zero_iff.mp hkeys
    · exact Or.inr hallowed

/-- A description leaves nothing of the rule open. -/
theorem Described.unique {t : TableHandle} {k : Kind} {attrs : List Attribute}
    {rule other : Rule} (h : Described t k attrs rule) (h' : Described t k attrs other) :
    rule = other := by
  have hcell : Relator.RightUnique fun (m : Field × Pattern) key =>
      Key.ofPattern m.1 m.2 = .ok key := by
    intro m key key' hkey hkey'
    rw [hkey] at hkey'
    exact Except.ok.inj hkey'
  have hkeys : rule.keys = other.keys := List.right_unique_forall₂' hcell h.keys h'.keys
  obtain ⟨⟨table, priority, keys, verdict⟩, kind, references⟩ := rule
  obtain ⟨⟨table', priority', keys', verdict'⟩, kind', references'⟩ := other
  have htable : table = table' := h.table.trans h'.table.symm
  have hkind : kind = kind' := h.kind.trans h'.kind.symm
  have hpriority : priority = priority' := h.priority.trans h'.priority.symm
  have hverdict : verdict = verdict' := h.verdict.trans h'.verdict.symm
  have hreferences : references = references' := h.references.trans h'.references.symm
  simp only at hkeys
  rw [htable, hkind, hpriority, hverdict, hreferences, hkeys]

/-- A rule that was made never has a null reference. -/
theorem references_of_ofAttributes {s : Settings} {t : TableHandle} {k : Kind}
    {attrs : List Attribute} {rule : Rule} (h : Rule.ofAttributes s t k attrs = .ok rule) :
    0 ∉ rule.references := by
  have hacceptable := (accepted_of_ofAttributes h).acceptable
  rw [(described_of_ofAttributes h).references, List.mem_reverse, List.mem_flatMap]
  rintro ⟨a, ha, hzero⟩
  cases hacceptable a ha with
  | objects hreal => exact hreal hzero
  | @object q id mask hsingle hreal =>
    rcases hsingle with rfl | rfl <;> exact hreal (List.mem_singleton.mp hzero).symm
  | @keyed q f p hrole hreadable =>
    rw [namedObjects_of_not_reference p (not_reference_of_keyed hrole)] at hzero
    cases hzero
  | _ => cases hzero

/-- Which lists of attributes make a rule, and which rule they make. -/
theorem ofAttributes_accepts_and_describes (s : Settings) (t : TableHandle) (k : Kind)
    (attrs : List Attribute) :
    ((∃ rule, Rule.ofAttributes s t k attrs = .ok rule) ↔ Accepted s k attrs) ∧
    ∀ rule, Rule.ofAttributes s t k attrs = .ok rule ↔
      Accepted s k attrs ∧ Described t k attrs rule := by
  constructor
  · constructor
    · rintro ⟨rule, hrule⟩
      exact accepted_of_ofAttributes hrule
    · exact exists_ofAttributes_of_accepted t
  · intro rule
    constructor
    · intro hrule
      exact ⟨accepted_of_ofAttributes hrule, described_of_ofAttributes hrule⟩
    · rintro ⟨haccepted, hdescribed⟩
      obtain ⟨made, hmade⟩ := exists_ofAttributes_of_accepted t haccepted
      rw [hmade, (described_of_ofAttributes hmade).unique hdescribed]

end AccessList.Proofs.RuleMaking
