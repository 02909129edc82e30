import AccessList.Proofs.DryRuns

/-!
A run that allows rules without keys against one that rejects them. Want of keys is the last
thing that a rule can fail for, so a rule that fails otherwise fails with the same error, and
a rule that is translated is the same rule. A rule that is let in changes no table but for
what it is bound to, so the switches of the two runs differ in rules and in handles issued,
and neither is asked about for a translation.
-/
namespace AccessList.Proofs.KeylessRules

open AttributeEffects Attributes DryRuns Errors Fields Handles Keys Limits Operands PreparedRules
  Qualifiers Registries Reports RequestRuns Roles RuleMaking Rules Runs Scenarios Sessions
  SwitchCalls Switches Switch

/-- The same settings with rules without keys allowed. -/
def loosened (s : Settings) : Settings := { s with keyless := .allowed }

theorem ofPattern_ne_noKeys (f : Field) (p : Pattern) : Key.ofPattern f p ≠ .error .noKeys := by
  unfold Key.ofPattern
  split
  · exact nofun
  · split <;> exact nofun

theorem boundObjects_ne_noKeys (k : Kind) (q : Qualifier) (value : Operand) :
    boundObjects k q value ≠ .error .noKeys := by
  unfold boundObjects
  split
  case h_4 => exact nofun
  all_goals
    split
    · exact nofun
    · split <;> exact nofun

/-- No attribute fails for want of keys: that is a matter of the whole list. -/
theorem effect_ne_noKeys (k : Kind) (a : Attribute) : a.effect k ≠ .error .noKeys := by
  intro h
  cases a with
  | table raw => cases h
  | priority p => cases h
  | packet action => cases h
  | flood => cases h
  | redirect target =>
    by_cases htarget : target = 0
    · rw [effect_of_null_redirect k htarget] at h
      cases h
    · rw [effect_of_redirect k htarget] at h
      cases h
  | field q p =>
    cases hrole : role k q with
    | refused =>
      rw [effect_of_refused p hrole] at h
      cases h
    | binding =>
      rw [effect_of_binding p hrole, map_eq_error_iff] at h
      exact boundObjects_ne_noKeys k q p.value h
    | keyed f =>
      rw [effect_of_keyed p hrole, map_eq_error_iff] at h
      exact ofPattern_ne_noKeys f p h

theorem effects_ne_noKeys (k : Kind) (maxKeys : Nat) (attrs : List Attribute) :
    effects k maxKeys attrs ≠ .error .noKeys := by
  intro h
  rcases error_of_effectsFrom h with ⟨a, -, heffect⟩ | hlimit
  · exact effect_ne_noKeys k a heffect
  · cases hlimit

/-- The second answer is the first, except where the first is that keys are wanting. -/
inductive Admits {ε : Type} (wanting : ε) (x y : Except ε Rule) : Prop
  | same (other : x ≠ .error wanting) (same : y = x)
  | letIn (rule : Rule) (refused : x = .error wanting) (made : y = .ok rule)
      (keyless : rule.keys = [])

theorem admits_ofAttributes (settings : Settings) (t : TableHandle) (k : Kind)
    (attrs : List Attribute) :
    Admits .noKeys (Rule.ofAttributes settings t k attrs)
      (Rule.ofAttributes (loosened settings) t k attrs) := by
  cases heffects : effects k settings.maxKeys attrs with
  | error cause =>
    have hstrict : Rule.ofAttributes settings t k attrs = .error cause := by
      simp only [Rule.ofAttributes, heffects]
    have hloose : Rule.ofAttributes (loosened settings) t k attrs = .error cause := by
      simp only [Rule.ofAttributes, loosened, heffects]
    refine .same (fun h => ?_) (hloose.trans hstrict.symm)
    rw [hstrict] at h
    cases h
    exact effects_ne_noKeys k settings.maxKeys attrs heffects
  | ok es =>
    have hloose : Rule.ofAttributes (loosened settings) t k attrs =
        .ok (Rule.ofEffects t k es) :=
      ofAttributes_eq_ok_iff.mpr ⟨es, heffects, rfl, Or.inr rfl⟩
    have hstrict := ofAttributes_of_effects t heffects
    by_cases hrejected : (Rule.ofEffects t k es).keys = [] ∧ settings.keyless = .rejected
    · rw [if_pos hrejected] at hstrict
      exact .letIn _ hstrict hloose hrejected.1
    · rw [if_neg hrejected] at hstrict
      refine .same (fun h => ?_) (hloose.trans hstrict.symm)
      rw [hstrict] at h
      cases h

theorem tableOf_ne_noKeys (attrs : List Attribute) : tableOf attrs ≠ .error .noKeys := by
  unfold tableOf
  split
  · exact nofun
  · split <;> exact nofun

theorem admits_prepared (settings : Settings) (attrs : List Attribute) (s : Switch) :
    Admits .noKeys (prepared settings attrs s) (prepared (loosened settings) attrs s) := by
  cases htable : tableOf attrs with
  | error cause =>
    rw [prepared_of_error settings s htable, prepared_of_error (loosened settings) s htable]
    refine .same (fun h => ?_) rfl
    cases h
    exact tableOf_ne_noKeys attrs htable
  | ok t =>
    cases hlive : s.tables.get? t with
    | none =>
      rw [prepared_of_dead settings htable hlive, prepared_of_dead (loosened settings) htable hlive]
      exact .same nofun rfl
    | some table =>
      rw [prepared_of_live settings htable hlive, prepared_of_live (loosened settings) htable hlive]
      exact admits_ofAttributes settings t table.kind attrs

theorem admits_translated (settings : Settings) (tables : List TableReport)
    (request : RuleRequest) (s : Switch) :
    Admits (.request .noKeys) (translated settings tables request s)
      (translated (loosened settings) tables request s) := by
  unfold translated
  cases hattrs : request.attributes (tableNamed tables) with
  | error cause => exact .same nofun rfl
  | ok attrs =>
    simp only
    rcases admits_prepared settings attrs s with
      ⟨hother, hsame⟩ | ⟨rule, hrefused, hmade, hkeyless⟩
    · rw [hsame]
      refine .same (fun h => ?_) rfl
      cases hprepared : prepared settings attrs s with
      | error cause =>
        rw [hprepared] at h hother
        cases h
        exact hother rfl
      | ok rule =>
        rw [hprepared] at h
        cases h
    · rw [hrefused, hmade]
      exact .letIn rule rfl rfl hkeyless

/-- What a rule report says of the report where rules without keys are allowed. A rule that
was translated has a handle where rules are placed, not always the same one. -/
inductive LetsIn (placing : Bool) : RuleReport → RuleReport → Prop
  | failed (name : String) (failure : Failure) (other : failure ≠ .request .noKeys) :
      LetsIn placing ⟨name, .error failure⟩ ⟨name, .error failure⟩
  | translated (name : String) (rule : Rule) (h h' : Option RuleHandle)
      (strict : h.isSome = placing) (loose : h'.isSome = placing) :
      LetsIn placing ⟨name, .ok (rule, h)⟩ ⟨name, .ok (rule, h')⟩
  | letIn (name : String) (rule : Rule) (h : Option RuleHandle) (keyless : rule.keys = [])
      (placed : h.isSome = placing) :
      LetsIn placing ⟨name, .error (.request .noKeys)⟩ ⟨name, .ok (rule, h)⟩

theorem runRule_of_translated {settings : Settings} {tables : List TableReport}
    {request : RuleRequest} {s : Switch} {rule : Rule} (hs : Unarmed s) (placing : Bool)
    (h : translated settings tables request s = .ok rule) :
    ∃ (handle : Option RuleHandle) (s' : Switch), handle.isSome = placing ∧ SameKinds s s' ∧
      (runRule settings placing tables request).run engine s =
        (⟨request.name, .ok (rule, handle)⟩, s') := by
  have hrun := run_runRule_of_translated hs placing h
  cases placing with
  | false => exact ⟨none, s, rfl, sameKinds_refl s, hrun⟩
  | true => exact ⟨_, placedOn s rule, rfl, (sameKinds_refl s).placed rule, hrun⟩

theorem letsIn_runRule (settings : Settings) (placing : Bool) (tables : List TableReport)
    (request : RuleRequest) {s u : Switch} (hkinds : SameKinds s u) (hs : Unarmed s)
    (hu : Unarmed u) :
    let strict := (runRule settings placing tables request).run engine s
    let loose := (runRule (loosened settings) placing tables request).run engine u
    LetsIn placing strict.1 loose.1 ∧ SameKinds strict.2 loose.2 := by
  intro strict loose
  have hsame := hkinds.translated_eq (loosened settings) tables request
  rcases admits_translated settings tables request s with
    ⟨hother, hboth⟩ | ⟨rule, hrefused, hmade, hkeyless⟩
  · cases htranslated : translated settings tables request s with
    | error failure =>
      have hstrict : strict = _ := run_runRule_of_failed placing htranslated
      have hloose : loose = _ :=
        run_runRule_of_failed placing (hsame.trans (hboth.trans htranslated))
      rw [hstrict, hloose]
      rw [htranslated] at hother
      exact ⟨.failed request.name failure fun h => hother (congrArg _ h), hkinds⟩
    | ok rule =>
      obtain ⟨h, s', hplaced, hkept, hrun⟩ := runRule_of_translated hs placing htranslated
      obtain ⟨h', u', hplaced', hkept', hrun'⟩ :=
        runRule_of_translated hu placing (hsame.trans (hboth.trans htranslated))
      have hstrict : strict = _ := hrun
      have hloose : loose = _ := hrun'
      rw [hstrict, hloose]
      exact ⟨.translated request.name rule h h' hplaced hplaced',
        hkept.symm.trans (hkinds.trans hkept')⟩
  · obtain ⟨h', u', hplaced', hkept', hrun'⟩ :=
      runRule_of_translated hu placing (hsame.trans hmade)
    have hstrict : strict = _ := run_runRule_of_failed placing hrefused
    have hloose : loose = _ := hrun'
    rw [hstrict, hloose]
    exact ⟨.letIn request.name rule h' hkeyless hplaced', hkinds.trans hkept'⟩

theorem letsIn_each (settings : Settings) (placing : Bool) (tables : List TableReport)
    (requests : List RuleRequest) {s u : Switch} (hkinds : SameKinds s u) (hs : Unarmed s)
    (hu : Unarmed u) :
    List.Forall₂ (LetsIn placing)
      ((Session.each (runRule settings placing tables) requests).run engine s).1
      ((Session.each (runRule (loosened settings) placing tables) requests).run engine u).1 := by
  induction requests generalizing s u with
  | nil => exact .nil
  | cons request rest ih =>
    obtain ⟨hfirst, hnext⟩ := letsIn_runRule settings placing tables request hkinds hs hu
    rw [run_each_cons, run_each_cons]
    exact .cons hfirst (ih hnext (unarmed_run hs _) (unarmed_run hu _))

/-- On a new switch the tables do not depend on the settings. -/
theorem letsIn_run (settings : Settings) (placing : Bool) (scenario : Scenario) :
    let strict := ((run settings placing scenario).run engine Switch.empty).1
    let loose := ((run (loosened settings) placing scenario).run engine Switch.empty).1
    loose.tables = strict.tables ∧ List.Forall₂ (LetsIn placing) strict.rules loose.rules := by
  intro strict loose
  have hopened : Unarmed ((Session.each runTable scenario.tables).run engine Switch.empty).2 :=
    unarmed_run (fun _ => rfl) _
  have hrules := letsIn_each settings placing
    ((Session.each runTable scenario.tables).run engine Switch.empty).1 scenario.rules
    (sameKinds_refl _) hopened hopened
  have hstrict : strict = _ := congrArg Prod.fst (run_run settings placing scenario Switch.empty)
  have hloose : loose = _ :=
    congrArg Prod.fst (run_run (loosened settings) placing scenario Switch.empty)
  rw [hstrict, hloose]
  exact ⟨rfl, hrules⟩

theorem error_of_letsIn {placing : Bool} {x y : RuleReport} (h : LetsIn placing x y)
    (hy : ∃ e, y.outcome = .error e) : ∃ e, x.outcome = .error e := by
  obtain ⟨e, he⟩ := hy
  cases h with
  | failed name failure other => exact ⟨failure, rfl⟩
  | translated name rule h h' strict loose => cases he
  | letIn name rule h keyless placed => cases he

end AccessList.Proofs.KeylessRules
