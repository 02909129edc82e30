import AccessList.Proofs.ErrorPrecedence

/-!
Settings that allow more. A walk that has room for more keys passes whatever it passed before,
and an attribute with a flaw still ends it. So a rule that was made is made again, and an error
stays the error, unless it was the limit or the want of keys: beyond the limit the walk goes
on, and a rule without keys may be let in.
-/
namespace AccessList.Proofs.LooserSettings

open Attributes ErrorPrecedence Errors Fields Handles Limits Operands RuleMaking Rules

/-- There is room for as many keys, and a rule without keys is allowed where it was. -/
structure Loosens (s s' : Settings) : Prop where
  room : s.maxKeys ≤ s'.maxKeys
  keyless : s'.keyless = s.keyless ∨ s'.keyless = .allowed

section Walk
variable {k : Kind} {maxKeys maxKeys' : Nat} {a : Attribute} {before attrs : List Attribute}
  {cause : RequestError}

/-- What ends the walk within the higher limit ends it within the lower one as well, if not
for the same reason. -/
theorem exists_halts_lower {count : Nat} (hle : maxKeys ≤ maxKeys')
    (h : Halts k maxKeys' count a cause) : ∃ first, Halts k maxKeys count a first := by
  cases h with
  | flawed flaw => exact ⟨cause, .flawed flaw⟩
  | full acceptable keyed full => exact ⟨_, .full acceptable keyed (Nat.le_trans hle full)⟩

theorem passes_raise (hle : maxKeys ≤ maxKeys') (h : Passes k maxKeys attrs) :
    Passes k maxKeys' attrs := by
  intro before a after hsplit cause hhalts
  obtain ⟨first, hfirst⟩ := exists_halts_lower hle hhalts
  exact h before a after hsplit first hfirst

theorem stopsAt_raise (hle : maxKeys ≤ maxKeys') (h : StopsAt k maxKeys before a cause)
    (hother : cause ≠ .tooManyKeys maxKeys) : StopsAt k maxKeys' before a cause := by
  refine ⟨passes_raise hle h.passes, ?_⟩
  cases h.halts with
  | flawed flaw => exact .flawed flaw
  | full => exact absurd rfl hother

theorem effects_raise {es : List Effect} (hle : maxKeys ≤ maxKeys')
    (h : effects k maxKeys attrs = .ok es) : effects k maxKeys' attrs = .ok es := by
  obtain ⟨hwalk, hroom⟩ := effects_eq_ok_iff.mp h
  exact effects_eq_ok_iff.mpr ⟨hwalk, Nat.le_trans hroom hle⟩

end Walk

section Making
variable {s s' : Settings} {t : TableHandle} {k : Kind} {attrs : List Attribute}
  {cause : RequestError} {rule : Rule}

theorem ofAttributes_raise (h : Loosens s s') (hmade : Rule.ofAttributes s t k attrs = .ok rule) :
    Rule.ofAttributes s' t k attrs = .ok rule := by
  obtain ⟨es, heffects, hrule, hkeyed⟩ := ofAttributes_eq_ok_iff.mp hmade
  refine ofAttributes_eq_ok_iff.mpr ⟨es, effects_raise h.room heffects, hrule, ?_⟩
  rcases hkeyed with hkeys | hallowed
  · exact Or.inl hkeys
  · rcases h.keyless with hsame | hloose
    · exact Or.inr (hsame.trans hallowed)
    · exact Or.inr hloose

theorem error_raise (h : Loosens s s') (hfailed : Rule.ofAttributes s t k attrs = .error cause)
    (hkeyless : cause ≠ .noKeys) (hlimit : ∀ max, cause ≠ .tooManyKeys max) :
    Rule.ofAttributes s' t k attrs = .error cause := by
  rw [ofAttributes_eq_error_iff] at hfailed ⊢
  rcases hfailed with ⟨before, a, after, hsplit, hstops⟩ | ⟨-, hnone⟩
  · exact Or.inl ⟨before, a, after, hsplit, stopsAt_raise h.room hstops (hlimit _)⟩
  · exact absurd hnone hkeyless

theorem keyless_of_noKeys (h : Rule.ofAttributes s t k attrs = .error .noKeys) :
    Keyless s k attrs := by
  rcases ofAttributes_eq_error_iff.mp h with ⟨before, a, after, -, hstops⟩ | ⟨hkeyless, -⟩
  · exact absurd rfl hstops.halts.ne_noKeys
  · exact hkeyless

/-- Attributes without any key are rejected again or make a rule without keys, whatever the
limit. -/
theorem ofAttributes_of_keyless (s' : Settings) (t : TableHandle) (h : Keyless s k attrs) :
    s'.keyless = .rejected ∧ Rule.ofAttributes s' t k attrs = .error .noKeys ∨
      s'.keyless = .allowed ∧
        ∃ rule, Rule.ofAttributes s' t k attrs = .ok rule ∧ rule.keys = [] := by
  cases hkeyless : s'.keyless with
  | rejected =>
    have hagain : Keyless s' k attrs := ⟨h.acceptable, h.bare, hkeyless⟩
    exact Or.inl ⟨rfl, ofAttributes_eq_error_iff.mpr (Or.inr ⟨hagain, rfl⟩)⟩
  | allowed =>
    obtain ⟨es, heffects⟩ := h.effects_ok s'.maxKeys
    refine Or.inr ⟨rfl, Rule.ofEffects t k es, ?_, (keys_eq_nil_iff t heffects).mpr h.bare⟩
    exact ofAttributes_eq_ok_iff.mpr ⟨es, heffects, rfl, Or.inr hkeyless⟩

/-- A rule that was refused at the limit has more keys than that, if it is made at all. -/
theorem keys_of_refused {max : Nat}
    (hlimit : Rule.ofAttributes s t k attrs = .error (.tooManyKeys max))
    (hmade : Rule.ofAttributes s' t k attrs = .ok rule) : s.maxKeys < rule.keys.length := by
  by_contra hfew
  obtain ⟨es, heffects, rfl, -⟩ := ofAttributes_eq_ok_iff.mp hmade
  have hroom : keyCount es ≤ s.maxKeys := Nat.le_of_not_lt hfew
  have hagain : effects k s.maxKeys attrs = .ok es :=
    effects_eq_ok_iff.mpr ⟨(effects_eq_ok_iff.mp heffects).1, hroom⟩
  rw [ofAttributes_of_effects t hagain] at hlimit
  split at hlimit <;> cases hlimit

end Making

/-- What looser settings make of attributes: the same rule, the same error unless it was for
the limit or for want of keys, and where keys were wanting that again or a rule without any. -/
structure Kept (s s' : Settings) (t : TableHandle) (k : Kind) (attrs : List Attribute) :
    Prop where
  made : ∀ rule, Rule.ofAttributes s t k attrs = .ok rule →
    Rule.ofAttributes s' t k attrs = .ok rule
  failed : ∀ cause, Rule.ofAttributes s t k attrs = .error cause → cause ≠ .noKeys →
    (∀ max, cause ≠ .tooManyKeys max) → Rule.ofAttributes s' t k attrs = .error cause
  keyless : Rule.ofAttributes s t k attrs = .error .noKeys →
    s'.keyless = .rejected ∧ Rule.ofAttributes s' t k attrs = .error .noKeys ∨
      s'.keyless = .allowed ∧
        ∃ rule, Rule.ofAttributes s' t k attrs = .ok rule ∧ rule.keys = []
  limited : ∀ max, Rule.ofAttributes s t k attrs = .error (.tooManyKeys max) →
    ∀ rule, Rule.ofAttributes s' t k attrs = .ok rule → s.maxKeys < rule.keys.length

theorem looser_settings_keep_rules {s s' : Settings} (h : Loosens s s') (t : TableHandle)
    (k : Kind) (attrs : List Attribute) : Kept s s' t k attrs where
  made _ := ofAttributes_raise h
  failed _ := error_raise h
  keyless hfailed := ofAttributes_of_keyless s' t (keyless_of_noKeys hfailed)
  limited _ hlimit _ hmade := keys_of_refused hlimit hmade

/-- Two keys and then a null redirect. -/
def twoKeys : List Attribute :=
  [.field .ttl ⟨.scalar8 64, .scalar8 255⟩, .field .dscp ⟨.scalar8 46, .scalar8 63⟩, .redirect 0]

/-- With room for one key the limit comes first, with room for two the redirect does; a rule
that only binds is let in. -/
theorem looser_settings_keep_rules_twoKeys :
    let s : Settings := ⟨.rejected, 1⟩
    let s' : Settings := ⟨.allowed, 2⟩
    let t : TableHandle := ⟨7⟩
    let binding : List Attribute := [.field .inPort (.object 5), .flood]
    (Rule.ofAttributes s t .ipv4 twoKeys = .error (.tooManyKeys 1) ∧
      Rule.ofAttributes s' t .ipv4 twoKeys = .error (.wrongOperand .redirect .redirectTarget) ∧
      Rule.ofAttributes s t .ipv4 binding = .error .noKeys ∧
      ∃ rule, Rule.ofAttributes s' t .ipv4 binding = .ok rule ∧ rule.keys = []) ∧
    Loosens s s' ∧ Kept s s' t .ipv4 twoKeys ∧ Kept s s' t .ipv4 binding := by
  intro s s' t binding
  have hloosens : Loosens s s' := ⟨by decide, Or.inr rfl⟩
  have hbinding := looser_settings_keep_rules hloosens t .ipv4 binding
  have hrejected : Rule.ofAttributes s t .ipv4 binding = .error .noKeys := rfl
  have hletIn : ∃ rule, Rule.ofAttributes s' t .ipv4 binding = .ok rule ∧ rule.keys = [] := by
    rcases hbinding.keyless hrejected with ⟨hstrict, -⟩ | ⟨-, hmade⟩
    · cases hstrict
    · exact hmade
  exact ⟨⟨rfl, rfl, hrejected, hletIn⟩, hloosens,
    looser_settings_keep_rules hloosens t .ipv4 twoKeys, hbinding⟩

end AccessList.Proofs.LooserSettings
