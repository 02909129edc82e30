import AccessList.Proofs.PreparedRules
import AccessList.Proofs.RuleRuns

/-!
A run that only translates the rules of a scenario against one that places them. The two
switches differ more with every rule that is placed, but not in the kinds of their tables,
and nothing else of a switch is asked for a translation. A rule that was translated is placed
where no failure is armed. So the reports differ in the handles of the placed rules only.
-/
namespace AccessList.Proofs.DryRuns

open Errors Fields Handles Limits Placements PreparedRules Registries Reports RequestRuns
  Requests RuleRuns Rules Runs Scenarios Sessions SwitchCalls Switches Switch

theorem unarmed_run {α : Type} {s : Switch} (h : Unarmed s) (p : Session α) :
    Unarmed (p.run engine s).2 := by
  induction p generalizing s with
  | done a => exact h
  | ask c next ih => exact ih _ (h.answer c)

/-- Two switches with the same tables, up to what the tables are bound to. -/
def SameKinds (s u : Switch) : Prop :=
  ∀ t, (u.tables.get? t).map Table.kind = (s.tables.get? t).map Table.kind

theorem sameKinds_refl (s : Switch) : SameKinds s s := fun _ => rfl

section Kinds
variable {s u v : Switch}

theorem SameKinds.symm (h : SameKinds s u) : SameKinds u s := fun t => (h t).symm

theorem SameKinds.trans (h : SameKinds s u) (h' : SameKinds u v) : SameKinds s v :=
  fun t => (h' t).trans (h t)

theorem SameKinds.prepared_eq (h : SameKinds s u) (settings : Settings)
    (attrs : List Attributes.Attribute) :
    prepared settings attrs u = prepared settings attrs s := by
  unfold prepared
  cases Attributes.tableOf attrs with
  | error cause => rfl
  | ok t =>
    have hkind := h t
    cases hs : s.tables.get? t with
    | none =>
      rw [hs, Option.map_none, Option.map_eq_none_iff] at hkind
      simp only [hkind, hs]
    | some table =>
      rw [hs, Option.map_some, Option.map_eq_some_iff] at hkind
      obtain ⟨other, hother, hsame⟩ := hkind
      simp only [hother, hs, hsame]

theorem SameKinds.translated_eq (h : SameKinds s u) (settings : Settings)
    (tables : List TableReport) (request : RuleRequest) :
    translated settings tables request u = translated settings tables request s := by
  unfold translated
  cases request.attributes (tableNamed tables) with
  | error cause => rfl
  | ok attrs => simp only [h.prepared_eq settings attrs]

theorem SameKinds.placed (h : SameKinds s u) (rule : Rule) : SameKinds s (placedOn u rule) := by
  intro t
  have hbound : OnlyBound u (placedOn u rule) rule.table rule.references :=
    onlyBound_extended (by rw [bindSpent_tables]; rfl) rule.table rule.references
  exact (kind_of_onlyBound hbound t).trans (h t)

end Kinds

theorem run_runRule_of_failed {settings : Settings} {tables : List TableReport}
    {request : RuleRequest} {s : Switch} {failure : Failure} (placing : Bool)
    (h : translated settings tables request s = .error failure) :
    (runRule settings placing tables request).run engine s =
      (⟨request.name, .error failure⟩, s) := by
  rw [run_runRule, h]

/-- Where no failure is armed a rule that was translated is placed. -/
theorem run_runRule_of_translated {settings : Settings} {tables : List TableReport}
    {request : RuleRequest} {s : Switch} {rule : Rule} (hs : Unarmed s) (placing : Bool)
    (h : translated settings tables request s = .ok rule) :
    (runRule settings placing tables request).run engine s =
      if placing then
        (⟨request.name, .ok (rule, some (handle .rule (s.issued + 1)))⟩, placedOn s rule)
      else (⟨request.name, .ok (rule, none)⟩, s) := by
  obtain ⟨attrs, hprepared⟩ := prepared_of_translated h
  have hplace := (placeable_of_prepared hprepared).run_place (hs.spared .createRule)
    (hs.spared .bind)
  rw [run_runRule, h]
  simp only [hplace]
  rfl

/-- What a rule report of a dry run says of the report where rules are placed. Only a rule
that was translated has a handle there. -/
inductive Predicts : RuleReport → RuleReport → Prop
  | placed (name : String) (rule : Rule) (r : RuleHandle) :
      Predicts ⟨name, .ok (rule, none)⟩ ⟨name, .ok (rule, some r)⟩
  | failed (name : String) (failure : Failure) :
      Predicts ⟨name, .error failure⟩ ⟨name, .error failure⟩

/-- The dry run stays on its switch, the other goes on with tables of the same kinds. -/
theorem predicts_runRule (settings : Settings) (tables : List TableReport)
    (request : RuleRequest) {s u : Switch} (hkinds : SameKinds s u) (hu : Unarmed u) :
    let dry := (runRule settings false tables request).run engine s
    let placed := (runRule settings true tables request).run engine u
    Predicts dry.1 placed.1 ∧ dry.2 = s ∧ SameKinds s placed.2 := by
  intro dry placed
  have hsame := hkinds.translated_eq settings tables request
  cases htranslated : translated settings tables request s with
  | error failure =>
    have hdry : dry = _ := run_runRule_of_failed false htranslated
    have hplaced : placed = _ := run_runRule_of_failed true (hsame.trans htranslated)
    rw [hdry, hplaced]
    exact ⟨.failed request.name failure, rfl, hkinds⟩
  | ok rule =>
    have hdry : dry = (⟨request.name, .ok (rule, none)⟩, s) := by
      have hrun := run_runRule settings false tables request s
      rw [htranslated] at hrun
      exact hrun
    have hplaced : placed = _ := run_runRule_of_translated hu true (hsame.trans htranslated)
    rw [hdry, hplaced]
    exact ⟨.placed request.name rule _, rfl, hkinds.placed rule⟩

theorem predicts_each (settings : Settings) (tables : List TableReport)
    (requests : List RuleRequest) {s u : Switch} (hkinds : SameKinds s u) (hu : Unarmed u) :
    List.Forall₂ Predicts
      ((Session.each (runRule settings false tables) requests).run engine s).1
      ((Session.each (runRule settings true tables) requests).run engine u).1 := by
  induction requests generalizing u with
  | nil => exact .nil
  | cons request rest ih =>
    obtain ⟨hfirst, hstays, hnext⟩ := predicts_runRule settings tables request hkinds hu
    rw [run_each_cons, run_each_cons, hstays]
    exact .cons hfirst (ih hnext (unarmed_run hu _))

theorem failed_eq_of_predicts {x y : RuleReport} (h : Predicts x y) :
    failed x.outcome = failed y.outcome := by
  cases h <;> rfl

theorem countP_failed_eq {xs ys : List RuleReport} (h : List.Forall₂ Predicts xs ys) :
    xs.countP (fun x => failed x.outcome) = ys.countP fun x => failed x.outcome := by
  induction h with
  | nil => rfl
  | cons hfirst _ ih => rw [List.countP_cons, List.countP_cons, ih, failed_eq_of_predicts hfirst]

/-- The report of a dry run is that of a run that places the rules, without the handles. -/
structure Foretells (dry placed : Report) : Prop where
  tables : dry.tables = placed.tables
  rules : List.Forall₂ Predicts dry.rules placed.rules
  failures : dry.failures = placed.failures

/-- On a new switch a dry run of any scenario foretells the run that places its rules. -/
theorem dry_run_foretells (settings : Settings) (scenario : Scenario) :
    Foretells ((run settings false scenario).run engine Switch.empty).1
      ((run settings true scenario).run engine Switch.empty).1 := by
  have hopened : Unarmed ((Session.each runTable scenario.tables).run engine Switch.empty).2 :=
    unarmed_run (fun _ => rfl) _
  have hrules := predicts_each settings
    ((Session.each runTable scenario.tables).run engine Switch.empty).1 scenario.rules
    (fun _ => rfl) hopened
  rw [run_run, run_run]
  refine ⟨rfl, hrules, ?_⟩
  simp only [Report.failures]
  rw [countP_failed_eq hrules]

end AccessList.Proofs.DryRuns
