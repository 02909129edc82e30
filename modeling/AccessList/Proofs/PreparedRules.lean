import AccessList.Proofs.Placements
import AccessList.Proofs.RequestRuns

/-!
A rule that was prepared on a switch is one that the switch takes: every key is on a field of
the table's kind, a redirect has a target, and no reference is null. Placing such a rule is
left to the failures that are armed. It gets the next handle, unless one of them strikes, and
then the error is the status that was armed. Nothing of this depends on the rules and
references that the switch already has, only on the kind of the table.
-/
namespace AccessList.Proofs.PreparedRules

open AttributeEffects Attributes Errors Fields Handles Limits Operands Placements Registries
  RequestRuns Requests Roles RuleMaking Rules Sessions Statuses SwitchCalls Switches Switch
  Transcripts Verdicts

theorem kind_of_matched {k : Kind} {a : Attribute} {m : Field × Pattern}
    (h : matched? k a = some m) : m.1.kind = k := by
  cases a with
  | field q p =>
    cases hrole : role k q with
    | keyed f =>
      simp only [matched?, hrole, Option.some.injEq] at h
      rw [← h]
      exact kind_of_field? (role_eq_keyed_iff.mp hrole)
    | binding =>
      simp only [matched?, hrole] at h
      cases h
    | refused =>
      simp only [matched?, hrole] at h
      cases h
  | _ => cases h

theorem kind_of_key {t : TableHandle} {k : Kind} {attrs : List Attribute} {rule : Rule}
    (h : Described t k attrs rule) : ∀ key ∈ rule.keys, key.field.kind = k := by
  intro key hkey
  have hfield : key.field ∈ (matchedFields k attrs).map Prod.fst := by
    rw [← h.fields]
    exact List.mem_map_of_mem hkey
  obtain ⟨m, hm, hfst⟩ := List.mem_map.mp hfield
  obtain ⟨a, -, hmatched⟩ := List.mem_filterMap.mp hm
  rw [← hfst]
  exact kind_of_matched hmatched

/-- Of what attributes can ask for, only a redirect has that action. -/
theorem target_of_asked {a : Attribute} {v : Verdict} (hasked : asked? a = some v)
    (haction : v.action = .redirect) : v.target ≠ none := by
  cases a with
  | redirect target =>
    cases hasked
    exact Option.some_ne_none target
  | packet a => cases a <;> cases hasked <;> cases haction
  | flood =>
    cases hasked
    cases haction
  | _ => cases hasked

theorem target_of_redirect {t : TableHandle} {k : Kind} {attrs : List Attribute} {rule : Rule}
    (h : Described t k attrs rule) (haction : rule.verdict.action = .redirect) :
    rule.verdict.target ≠ none := by
  rw [h.verdict] at haction ⊢
  cases hlast : (attrs.filterMap asked?).getLast? with
  | none =>
    rw [hlast] at haction
    cases haction
  | some v =>
    rw [hlast] at haction
    obtain ⟨a, -, hasked⟩ := List.mem_filterMap.mp (List.mem_of_getLast? hlast)
    exact target_of_asked hasked haction

/-- What the engine checks of an entry holds of every rule that attributes describe. -/
theorem taken_of_ofAttributes {s : Settings} {t : TableHandle} {k : Kind}
    {attrs : List Attribute} {rule : Rule} (h : Rule.ofAttributes s t k attrs = .ok rule) :
    refusal? k rule.toEntry = none := by
  have hdescribed := described_of_ofAttributes h
  exact refusal?_eq_none_iff.mpr ⟨kind_of_key hdescribed, target_of_redirect hdescribed⟩

/-- A rule whose table is live and can hold it, and that binds it to real objects only. -/
structure Placeable (rule : Rule) (s : Switch) : Prop where
  taken : ∃ table, s.tables.get? rule.table = some table ∧
    refusal? table.kind rule.toEntry = none
  real : 0 ∉ rule.references

theorem placeable_of_prepared {settings : Settings} {attrs : List Attribute} {s : Switch}
    {rule : Rule} (h : prepared settings attrs s = .ok rule) : Placeable rule s := by
  obtain ⟨table, hlive, hmade⟩ := ofAttributes_of_prepared h
  exact ⟨⟨table, hlive, taken_of_ofAttributes hmade⟩, references_of_ofAttributes hmade⟩

/-- Where the table has the same kind the rule can be placed as well. -/
theorem Placeable.of_kind {rule : Rule} {s u : Switch} (h : Placeable rule s)
    (hkind : (u.tables.get? rule.table).map Table.kind =
      (s.tables.get? rule.table).map Table.kind) : Placeable rule u := by
  obtain ⟨table, hlive, htaken⟩ := h.taken
  rw [hlive, Option.map_some, Option.map_eq_some_iff] at hkind
  obtain ⟨other, hother, hsame⟩ := hkind
  refine ⟨⟨other, hother, ?_⟩, h.real⟩
  rw [hsame]
  exact htaken

/-- Only the first binding can meet a failure, which is then spent. -/
theorem run_bindAll_of_live {s : Switch} {t : TableHandle} {table : Table}
    {objects : List ObjectId} (hlive : s.tables.get? t = some table) (hreal : 0 ∉ objects) :
    ((bindAll t objects).run engine s).1 = if objects = [] then .ok () else fault s .bind := by
  induction objects generalizing s table with
  | nil => rfl
  | cons object rest ih =>
    have hobject : object ≠ 0 := fun hzero => hreal (hzero ▸ List.mem_cons_self)
    have hrest : 0 ∉ rest := fun hzero => hreal (List.mem_cons_of_mem object hzero)
    rw [if_neg (List.cons_ne_nil object rest)]
    simp only [bindAll, Session.run_ask, answer_bind]
    rw [bind_of_live hlive hobject]
    cases hfault : fault s .bind with
    | error cause => rfl
    | ok _ =>
      have hnext : (extended (s.disarm .bind) t [object]).tables.get? t =
          some (Table.extended table [object]) := by
        rw [get?_extended, if_pos rfl, disarm_tables, hlive]
        rfl
      have hspent : fault (extended (s.disarm .bind) t [object]) .bind = .ok () := by
        unfold fault
        rw [extended_armed, disarm_armed, if_pos rfl]
      simp only
      rw [ih hnext hrest, hspent, ite_self]

section Placing
variable {rule : Rule} {s : Switch}

theorem Placeable.createRule_eq (h : Placeable rule s) (hspared : fault s .createRule = .ok ()) :
    s.createRule rule.toEntry = (.ok (handle .rule (s.issued + 1)), created s rule.toEntry) := by
  obtain ⟨table, hlive, htaken⟩ := h.taken
  rw [createRule_of_live hlive htaken, hspared]
  rfl

/-- The binding meets the failure that was armed before the rule was stored. -/
theorem Placeable.run_bindAll (h : Placeable rule s) :
    ((bindAll rule.table rule.references).run engine (created s rule.toEntry)).1 =
      if rule.references = [] then .ok () else fault s .bind := by
  obtain ⟨table, hlive, -⟩ := h.taken
  have hcreated : (created s rule.toEntry).tables.get? rule.table = some table := hlive
  exact run_bindAll_of_live hcreated h.real

/-- The switch after a rule was placed on it. -/
def placedOn (s : Switch) (rule : Rule) : Switch :=
  extended (bindSpent (created s rule.toEntry) rule.references) rule.table rule.references

theorem Placeable.run_place (h : Placeable rule s) (hcreate : ¬ FailsNext s .createRule)
    (hbind : ¬ FailsNext s .bind) :
    (place rule).run engine s = (.ok (handle .rule (s.issued + 1)), placedOn s rule) := by
  obtain ⟨table, hlive, -⟩ := h.taken
  have hcreated : (created s rule.toEntry).tables.get? rule.table = some table := hlive
  have hstored := h.createRule_eq (fault_of_spared hcreate)
  have hbound := h.run_bindAll
  rw [fault_of_spared hbind, ite_self] at hbound
  exact run_place_of_bound hstored (Prod.ext hbound (run_bindAll_ok hcreated hbound))

/-- A failure that is armed against storing a rule or against binding its table. -/
def Struck (s : Switch) (cause : EngineError) : Prop :=
  ∃ op status, (op = .createRule ∨ op = .bind) ∧ s.armed op = some status ∧
    status ≠ .success ∧ cause = .ofStatus status

theorem struck_of_fault {op : Operation} {cause : EngineError}
    (hop : op = .createRule ∨ op = .bind) (h : fault s op = .error cause) : Struck s cause := by
  obtain ⟨status, hstatus⟩ := status_of_fault h
  exact ⟨op, status, hop, hstatus⟩

theorem Placeable.struck (h : Placeable rule s) {failure : RequestError}
    (hfailed : ((place rule).run engine s).1 = .error failure) :
    ∃ cause, failure = .engine cause ∧ Struck s cause := by
  cases hcreate : fault s .createRule with
  | error cause =>
    obtain ⟨table, hlive, htaken⟩ := h.taken
    have hrefused : s.createRule rule.toEntry = (.error cause, s.disarm .createRule) := by
      rw [createRule_of_live hlive htaken, hcreate]
    rw [run_place_of_refused hrefused] at hfailed
    exact ⟨cause, (Except.error.inj hfailed).symm, struck_of_fault (Or.inl rfl) hcreate⟩
  | ok _ =>
    have hstored := h.createRule_eq hcreate
    have hbound := h.run_bindAll
    obtain ⟨answer, v, hrun⟩ : ∃ answer v, (bindAll rule.table rule.references).run engine
        (created s rule.toEntry) = (answer, v) := ⟨_, _, rfl⟩
    rw [hrun] at hbound
    cases answer with
    | ok _ =>
      rw [run_place_of_bound hstored hrun] at hfailed
      cases hfailed
    | error cause =>
      rw [run_place_of_unbound hstored hrun] at hfailed
      by_cases hnil : rule.references = []
      · rw [if_pos hnil] at hbound
        cases hbound
      · rw [if_neg hnil] at hbound
        exact ⟨cause, (Except.error.inj hfailed).symm,
          struck_of_fault (Or.inr rfl) hbound.symm⟩

end Placing

end AccessList.Proofs.PreparedRules
