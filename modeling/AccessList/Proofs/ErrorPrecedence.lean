import AccessList.Proofs.AttributeFlaws
import AccessList.Proofs.RequestRuns
import AccessList.Proofs.Transcripts

/-!
Which of several errors a list of attributes fails with. The table comes first, as the last
attribute that names one says, and then the attributes in their order: the walk ends at the
first that has a flaw or finds no room for its key, whatever follows it. The want of keys
comes last. So an error is known from the table and the attributes up to the one at fault.
-/
namespace AccessList.Proofs.ErrorPrecedence

open AttributeEffects AttributeFlaws Attributes Errors Fields Handles Keys Limits Operands
  RequestRuns Requests RuleMaking Rules Sessions Switches Switch Transcripts

/-- What ends the walk at an attribute that `count` keys precede: a flaw, or the limit where
the attribute has none. -/
inductive Halts (k : Kind) (maxKeys count : Nat) (a : Attribute) : RequestError → Prop
  | flawed {cause : RequestError} (flaw : Flaw k a cause) : Halts k maxKeys count a cause
  | full {m : Field × Pattern} (acceptable : Acceptable k a) (keyed : matched? k a = some m)
      (full : maxKeys ≤ count) : Halts k maxKeys count a (.tooManyKeys maxKeys)

/-- No attribute ends the walk. -/
def Passes (k : Kind) (maxKeys : Nat) (attrs : List Attribute) : Prop :=
  ∀ before a after, attrs = before ++ a :: after →
    ∀ cause, ¬ Halts k maxKeys (matchedFields k before).length a cause

/-- The walk passes the attributes before this one, which ends it. -/
structure StopsAt (k : Kind) (maxKeys : Nat) (before : List Attribute) (a : Attribute)
    (cause : RequestError) : Prop where
  passes : Passes k maxKeys before
  halts : Halts k maxKeys (matchedFields k before).length a cause

section Walk
variable {k : Kind} {maxKeys count : Nat} {a : Attribute} {before attrs : List Attribute}
  {es : List Effect} {cause : RequestError}

theorem length_matchedFields (h : List.Forall₂ (fun a e => a.effect k = .ok e) attrs es) :
    (matchedFields k attrs).length = keyCount es := by
  have hkeys : List.Forall₂ (fun m key => Key.ofPattern m.1 m.2 = .ok key)
      (matchedFields k attrs) (es.filterMap Effect.key?) :=
    List.rel_filterMap (fun _ _ hadds => hadds.key) (walked_of_effects h).2
  exact hkeys.length_eq

theorem length_matchedFields_of_effects (h : effects k maxKeys attrs = .ok es) :
    (matchedFields k attrs).length = keyCount es :=
  length_matchedFields (effects_eq_ok_iff.mp h).1

theorem effectsFrom_of_halts (rest : List Attribute) (h : Halts k maxKeys count a cause) :
    effectsFrom k maxKeys count (a :: rest) = .error cause := by
  cases h with
  | flawed flaw => simp only [effectsFrom, effect_of_flaw flaw]
  | @full m acceptable keyed full =>
    obtain ⟨e, heffect⟩ := exists_effect_of_acceptable acceptable
    have hkey := (acceptable_of_effect heffect).2.key
    rw [keyed] at hkey
    rw [effectsFrom_cons rest heffect, if_pos]
    cases hkeyed : e.key? with
    | none =>
      rw [hkeyed] at hkey
      cases hkey
    | some key => simpa using full

/-- The walk goes on where it was left. -/
theorem effectsFrom_append (rest : List Attribute)
    (h : effectsFrom k maxKeys count before = .ok es) :
    effectsFrom k maxKeys count (before ++ rest) =
      (effectsFrom k maxKeys (count + keyCount es) rest).map (es ++ ·) := by
  -- Each attribute passed may add a key, so the count has to vary with the induction.
  induction before generalizing count es with
  | nil =>
    cases h
    rw [keyCount_nil, Nat.add_zero, List.nil_append]
    cases effectsFrom k maxKeys count rest <;> rfl
  | cons a before ih =>
    cases heffect : a.effect k with
    | error first =>
      simp only [effectsFrom, heffect] at h
      cases h
    | ok e =>
      rw [effectsFrom_cons before heffect] at h
      rw [List.cons_append, effectsFrom_cons (before ++ rest) heffect]
      split at h
      next => cases h
      next hroom =>
        obtain ⟨more, hmore, rfl⟩ := map_eq_ok_iff.mp h
        rw [if_neg hroom, ih hmore, keyCount_cons, Nat.add_assoc]
        cases effectsFrom k maxKeys (count + (e.key?.toList.length + keyCount more)) rest <;> rfl

/-- A walk that fails has come to an attribute that ends it. -/
theorem exists_halt (h : effectsFrom k maxKeys count attrs = .error cause) :
    ∃ before a after es, attrs = before ++ a :: after ∧
      effectsFrom k maxKeys count before = .ok es ∧
      Halts k maxKeys (count + keyCount es) a cause := by
  induction attrs generalizing count with
  | nil => cases h
  | cons a rest ih =>
    cases heffect : a.effect k with
    | error first =>
      simp only [effectsFrom, heffect] at h
      cases h
      exact ⟨[], a, rest, [], rfl, rfl, .flawed (flaw_of_effect heffect)⟩
    | ok e =>
      rw [effectsFrom_cons rest heffect] at h
      split at h
      next hfull =>
        -- The effect has a key, so the attribute is a field and the limit is what stops it.
        cases h
        simp only [Bool.and_eq_true, decide_eq_true_eq] at hfull
        obtain ⟨hacceptable, hadds⟩ := acceptable_of_effect heffect
        obtain ⟨key, hkeyed⟩ := Option.isSome_iff_exists.mp hfull.1
        have hkey := hadds.key
        rw [hkeyed] at hkey
        cases hmatched : matched? k a with
        | none =>
          rw [hmatched] at hkey
          cases hkey
        | some m => exact ⟨[], a, rest, [], rfl, rfl, .full hacceptable hmatched hfull.2⟩
      next hroom =>
        obtain ⟨before, b, after, es, rfl, hbefore, hhalts⟩ := ih (map_eq_error_iff.mp h)
        refine ⟨a :: before, b, after, e :: es, rfl, ?_, ?_⟩
        · rw [effectsFrom_cons before heffect, if_neg hroom, hbefore]
          rfl
        · rw [keyCount_cons, ← Nat.add_assoc]
          exact hhalts

end Walk

section Stops
variable {k : Kind} {maxKeys : Nat} {a : Attribute} {before attrs : List Attribute}
  {es : List Effect} {cause : RequestError}

theorem effects_of_halts (after : List Attribute) (hbefore : effects k maxKeys before = .ok es)
    (h : Halts k maxKeys (matchedFields k before).length a cause) :
    effects k maxKeys (before ++ a :: after) = .error cause := by
  rw [length_matchedFields_of_effects hbefore, ← Nat.zero_add (keyCount es)] at h
  have hrest := effectsFrom_append (a :: after) hbefore
  rw [effectsFrom_of_halts after h] at hrest
  exact hrest

theorem exists_stop (h : effects k maxKeys attrs = .error cause) :
    ∃ before a after es, attrs = before ++ a :: after ∧ effects k maxKeys before = .ok es ∧
      Halts k maxKeys (matchedFields k before).length a cause := by
  obtain ⟨before, a, after, es, hsplit, hbefore, hhalts⟩ := exists_halt h
  rw [Nat.zero_add, ← length_matchedFields_of_effects hbefore] at hhalts
  exact ⟨before, a, after, es, hsplit, hbefore, hhalts⟩

/-- A walk that succeeds has passed every attribute: had it come to one that ends it, it would
have failed there whatever follows. -/
theorem passes_of_effects (h : effects k maxKeys attrs = .ok es) : Passes k maxKeys attrs := by
  rintro before a after rfl cause hhalts
  cases hbefore : effects k maxKeys before with
  | ok es' =>
    rw [effects_of_halts after hbefore hhalts] at h
    cases h
  | error first =>
    obtain ⟨earlier, b, later, es', rfl, hearlier, hstop⟩ := exists_stop hbefore
    have hfailed := effects_of_halts (later ++ a :: after) hearlier hstop
    rw [List.append_assoc, List.cons_append, hfailed] at h
    cases h

theorem passes_iff : Passes k maxKeys attrs ↔ ∃ es, effects k maxKeys attrs = .ok es := by
  constructor
  · intro hpasses
    cases hwalk : effects k maxKeys attrs with
    | ok es => exact ⟨es, rfl⟩
    | error cause =>
      obtain ⟨before, a, after, es, hsplit, -, hhalts⟩ := exists_stop hwalk
      exact absurd hhalts (hpasses before a after hsplit cause)
  · rintro ⟨es, hwalk⟩
    exact passes_of_effects hwalk

theorem StopsAt.effects_eq (h : StopsAt k maxKeys before a cause) (after : List Attribute) :
    effects k maxKeys (before ++ a :: after) = .error cause := by
  obtain ⟨es, hbefore⟩ := passes_iff.mp h.passes
  exact effects_of_halts after hbefore h.halts

theorem effects_eq_error_iff :
    effects k maxKeys attrs = .error cause ↔
      ∃ before a after, attrs = before ++ a :: after ∧ StopsAt k maxKeys before a cause := by
  constructor
  · intro h
    obtain ⟨before, a, after, es, hsplit, hbefore, hhalts⟩ := exists_stop h
    exact ⟨before, a, after, hsplit, passes_of_effects hbefore, hhalts⟩
  · rintro ⟨before, a, after, rfl, hstops⟩
    exact hstops.effects_eq after

/-- Attributes that are passed or not: then one of them is the first that is not. -/
theorem exists_stopsAt (h : ¬ Passes k maxKeys attrs) :
    ∃ before a after cause, attrs = before ++ a :: after ∧
      StopsAt k maxKeys before a cause := by
  cases hwalk : effects k maxKeys attrs with
  | ok es => exact absurd (passes_of_effects hwalk) h
  | error cause =>
    obtain ⟨before, a, after, hstops⟩ := effects_eq_error_iff.mp hwalk
    exact ⟨before, a, after, cause, hstops⟩

theorem Halts.ne_noKeys {count : Nat} (h : Halts k maxKeys count a cause) : cause ≠ .noKeys := by
  rintro rfl
  cases h with
  | flawed flaw => rcases cause_of_flaw flaw with ⟨_, _, h⟩ | ⟨_, h⟩ <;> cases h

end Stops

/-- Attributes for no key at all, where a rule without keys is rejected. -/
structure Keyless (settings : Settings) (k : Kind) (attrs : List Attribute) : Prop where
  acceptable : ∀ a ∈ attrs, Acceptable k a
  bare : matchedFields k attrs = []
  rejected : settings.keyless = .rejected

section Making
variable {settings : Settings} {k : Kind} {attrs : List Attribute} {cause : RequestError}

theorem keys_eq_nil_iff {es : List Effect} {maxKeys : Nat} (t : TableHandle)
    (h : effects k maxKeys attrs = .ok es) :
    (Rule.ofEffects t k es).keys = [] ↔ matchedFields k attrs = [] := by
  rw [← List.length_eq_zero_iff, ← List.length_eq_zero_iff, length_matchedFields_of_effects h]
  rfl

theorem Keyless.effects_ok (h : Keyless settings k attrs) (maxKeys : Nat) :
    ∃ es, effects k maxKeys attrs = .ok es := by
  obtain ⟨es, hwalk⟩ := exists_effects_of_acceptable h.acceptable
  have hnone : keyCount es = 0 := by rw [← length_matchedFields hwalk, h.bare, List.length_nil]
  exact ⟨es, effects_eq_ok_iff.mpr ⟨hwalk, by omega⟩⟩

theorem ofAttributes_eq_error_iff {t : TableHandle} :
    Rule.ofAttributes settings t k attrs = .error cause ↔
      (∃ before a after, attrs = before ++ a :: after ∧
        StopsAt k settings.maxKeys before a cause) ∨
      Keyless settings k attrs ∧ cause = .noKeys := by
  rw [← effects_eq_error_iff]
  cases hwalk : effects k settings.maxKeys attrs with
  | error first =>
    have hmade : Rule.ofAttributes settings t k attrs = .error first := by
      simp only [Rule.ofAttributes, hwalk]
    rw [hmade]
    constructor
    · intro h
      cases h
      exact Or.inl rfl
    · rintro (h | ⟨hkeyless, -⟩)
      · cases h
        rfl
      · obtain ⟨es, heffects⟩ := hkeyless.effects_ok settings.maxKeys
        rw [hwalk] at heffects
        cases heffects
  | ok es =>
    simp only [ofAttributes_of_effects t hwalk, keys_eq_nil_iff t hwalk]
    obtain ⟨hacceptable, -⟩ := walked_of_effects (effects_eq_ok_iff.mp hwalk).1
    by_cases hbare : matchedFields k attrs = [] ∧ settings.keyless = .rejected
    · rw [if_pos hbare]
      constructor
      · intro h
        cases h
        exact Or.inr ⟨⟨hacceptable, hbare.1, hbare.2⟩, rfl⟩
      · rintro (h | ⟨-, rfl⟩)
        · cases h
        · rfl
    · rw [if_neg hbare]
      constructor
      · intro h
        cases h
      · rintro (h | ⟨hkeyless, -⟩)
        · cases h
        · exact absurd ⟨hkeyless.bare, hkeyless.rejected⟩ hbare

end Making

/-- The attributes name a table last that is live on the switch. -/
structure OnTable (s : Switch) (attrs : List Attribute) (t : TableHandle) (table : Table) :
    Prop where
  named : lastTable attrs = t.raw
  real : t.raw ≠ 0
  live : s.tables.get? t = some table

/-- The errors with which a list of attributes fails on a switch: for want of a table, for a
dead table, at the first attribute that ends the walk, or for want of keys. -/
inductive Fails (settings : Settings) (s : Switch) (attrs : List Attribute) :
    RequestError → Prop
  | noTable (null : lastTable attrs = 0) : Fails settings s attrs .noTable
  | deadTable {t : TableHandle} (named : lastTable attrs = t.raw) (real : t.raw ≠ 0)
      (dead : s.tables.get? t = none) :
      Fails settings s attrs (.unknownTable t (.invalidHandle t.raw))
  | stopped {t : TableHandle} {table : Table} (on : OnTable s attrs t table)
      {before after : List Attribute} {a : Attribute} (split : attrs = before ++ a :: after)
      {cause : RequestError} (stops : StopsAt table.kind settings.maxKeys before a cause) :
      Fails settings s attrs cause
  | keyless {t : TableHandle} {table : Table} (on : OnTable s attrs t table)
      (keyless : Keyless settings table.kind attrs) : Fails settings s attrs .noKeys

section Preparing
variable {settings : Settings} {s : Switch} {attrs : List Attribute} {t : TableHandle}
  {table : Table} {cause : RequestError}

theorem prepared_of_named (settings : Settings) (h : OnTable s attrs t table) :
    prepared settings attrs s = Rule.ofAttributes settings t table.kind attrs := by
  have htable : tableOf attrs = .ok t := by
    rw [tableOf_of_named (by rw [h.named]; exact h.real), h.named]
  exact prepared_of_live settings htable h.live

theorem table_cases (s : Switch) (attrs : List Attribute) :
    lastTable attrs = 0 ∨
      (∃ t : TableHandle, lastTable attrs = t.raw ∧ t.raw ≠ 0 ∧ s.tables.get? t = none) ∨
      ∃ t table, OnTable s attrs t table := by
  by_cases hnull : lastTable attrs = 0
  · exact Or.inl hnull
  · obtain ⟨t, hnamed⟩ : ∃ t : TableHandle, lastTable attrs = t.raw := ⟨⟨_⟩, rfl⟩
    rw [hnamed] at hnull
    cases hlive : s.tables.get? t with
    | none => exact Or.inr (Or.inl ⟨t, hnamed, hnull, hlive⟩)
    | some table => exact Or.inr (Or.inr ⟨t, table, hnamed, hnull, hlive⟩)

theorem prepared_of_fails (h : Fails settings s attrs cause) :
    prepared settings attrs s = .error cause := by
  cases h with
  | noTable null => exact prepared_of_error settings s (tableOf_of_null null)
  | @deadTable t named real dead =>
    have htable : tableOf attrs = .ok t := by rw [tableOf_of_named (by rwa [named]), named]
    exact prepared_of_dead settings htable dead
  | @stopped t table on before after a split cause stops =>
    rw [prepared_of_named settings on, ofAttributes_eq_error_iff]
    exact Or.inl ⟨before, a, after, split, stops⟩
  | keyless on keyless =>
    rw [prepared_of_named settings on, ofAttributes_eq_error_iff]
    exact Or.inr ⟨keyless, rfl⟩

theorem fails_of_prepared (h : prepared settings attrs s = .error cause) :
    Fails settings s attrs cause := by
  rcases table_cases s attrs with hnull | ⟨t, hnamed, hreal, hdead⟩ | ⟨t, table, hon⟩
  · rw [prepared_of_fails (.noTable hnull)] at h
    cases h
    exact .noTable hnull
  · rw [prepared_of_fails (.deadTable hnamed hreal hdead)] at h
    cases h
    exact .deadTable hnamed hreal hdead
  · rw [prepared_of_named settings hon, ofAttributes_eq_error_iff] at h
    rcases h with ⟨before, a, after, hsplit, hstops⟩ | ⟨hkeyless, rfl⟩
    · exact .stopped hon hsplit hstops
    · exact .keyless hon hkeyless

/-- What follows the attribute that ends the walk has no say, but for the table it names. -/
theorem prepared_of_stopsAt {before : List Attribute} {a : Attribute} (after : List Attribute)
    (hon : OnTable s attrs t table)
    (hstops : StopsAt table.kind settings.maxKeys before a cause)
    (hlast : lastTable (before ++ a :: after) = lastTable attrs) :
    prepared settings (before ++ a :: after) s = .error cause :=
  prepared_of_fails (.stopped ⟨hlast.trans hon.named, hon.real, hon.live⟩ rfl hstops)

theorem fails_noKeys_iff :
    Fails settings s attrs .noKeys ↔
      ∃ t table, OnTable s attrs t table ∧ Keyless settings table.kind attrs := by
  constructor
  · intro h
    cases h with
    | stopped on split stops => exact absurd rfl stops.halts.ne_noKeys
    | keyless on keyless => exact ⟨_, _, on, keyless⟩
  · rintro ⟨t, table, hon, hkeyless⟩
    exact .keyless hon hkeyless

end Preparing

/-- How the errors of a list of attributes rank on a switch, which is left as it was. Where an
attribute cannot be passed the first such one is to blame, and no attribute after it matters as
long as the table stays the same. Keys are wanting only where nothing else is wrong. -/
structure ErrorsRanked (settings : Settings) (s : Switch) (attrs : List Attribute) : Prop where
  answer : ∀ cause, ((prepare settings attrs).run engine s).1 = .error cause ↔
    Fails settings s attrs cause
  kept : ((prepare settings attrs).run engine s).2 = s
  stopped : ∀ t table, OnTable s attrs t table →
    ¬ Passes table.kind settings.maxKeys attrs →
      ∃ before a after cause, attrs = before ++ a :: after ∧
        StopsAt table.kind settings.maxKeys before a cause ∧
        ∀ other, lastTable (before ++ a :: other) = lastTable attrs →
          (prepare settings (before ++ a :: other)).run engine s = (.error cause, s)
  keyless : ((prepare settings attrs).run engine s).1 = .error .noKeys ↔
    ∃ t table, OnTable s attrs t table ∧ Keyless settings table.kind attrs

/-- On every switch, reachable or not, the errors rank so. -/
theorem errors_ranked (settings : Settings) (s : Switch) (attrs : List Attribute) :
    ErrorsRanked settings s attrs where
  answer cause := by
    rw [run_prepare]
    exact ⟨fails_of_prepared, prepared_of_fails⟩
  kept := by rw [run_prepare]
  stopped t table hon hfails := by
    obtain ⟨before, a, after, cause, hsplit, hstops⟩ := exists_stopsAt hfails
    refine ⟨before, a, after, cause, hsplit, hstops, fun other hlast => ?_⟩
    rw [run_prepare, prepared_of_stopsAt other hon hstops hlast]
  keyless := by
    rw [run_prepare, ← fails_noKeys_iff]
    exact ⟨fails_of_prepared, prepared_of_fails⟩

/-- A dead table first, then one key where one is allowed, a second one on the wrong operands
and a null redirect, and the live table last. -/
def manyFaults : List Attribute :=
  [.table 7, .field .ttl ⟨.scalar8 64, .scalar8 255⟩, .field .dscp ⟨.mac 1, .mac 2⟩, .redirect 0,
    .table (handle .table 1).raw]

/-- The value of the second key is to blame, whatever stands in the place of the redirect. -/
theorem errors_ranked_manyFaults :
    let s := (Switch.empty.answer (.createTable .ipv4)).2
    let settings : Settings := ⟨.rejected, 1⟩
    (((prepare settings manyFaults).run engine s).1 =
        .error (.wrongOperand (.field (.ipv4 .dscp)) (.value .octet)) ∧
      Fails settings s manyFaults (.wrongOperand (.field (.ipv4 .dscp)) (.value .octet)) ∧
      ¬ ∃ t table, OnTable s manyFaults t table ∧ Keyless settings table.kind manyFaults) ∧
    ErrorsRanked settings s manyFaults := by
  intro s settings
  have hranked := errors_ranked settings s manyFaults
  have hanswer : ((prepare settings manyFaults).run engine s).1 =
      .error (.wrongOperand (.field (.ipv4 .dscp)) (.value .octet)) := by decide
  refine ⟨⟨hanswer, (hranked.answer _).mp hanswer, fun hkeyless => ?_⟩, hranked⟩
  have hother := hranked.keyless.mpr hkeyless
  rw [hanswer] at hother
  cases hother

end AccessList.Proofs.ErrorPrecedence
