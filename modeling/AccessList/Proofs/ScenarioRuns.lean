import AccessList.Proofs.RuleRuns

/-!
The report of a run and the switch that it leaves describe the same tables and rules. Each
table report with a handle stands for a table of the kind reported, each rule report with a
handle for the entry of its rule, and a table is bound to the objects of its reported rules
in the order of the reports. A rule that is in no report can stay only when both a binding
and taking the rule away again were made to fail, and then there is one such rule.
-/
namespace AccessList.Proofs.ScenarioRuns

open Handles Limits Placements Registries Reports RequestRuns RuleRuns Rules Runs Scenarios
  Sessions Statuses SwitchCalls Switches Switch TableRuns

structure TablesAgree (requests : List TableRequest) (reports : List TableReport)
    (s : Switch) : Prop where
  names : reports.map TableReport.name = requests.map TableRequest.name
  live : ∀ t k, (s.tables.get? t).map Table.kind = some k ↔
    ∃ x ∈ reports, x.outcome = .ok (k, t)
  distinct : (reports.filterMap openedHandle?).Nodup

/-- At most one rule is stored and not reported: none, unless both failures were armed. -/
structure RulesAgree (start : Switch) (requests : List RuleRequest)
    (reports : List RuleReport) (s : Switch) : Prop where
  names : reports.map RuleReport.name = requests.map RuleRequest.name
  stored : ∀ x ∈ reports, ∀ rule h, x.outcome = .ok (rule, h) →
    ∃ r, h = some r ∧ s.rules.get? r = some rule.toEntry
  distinct : (reports.filterMap placedHandle?).Nodup
  others : ∃ left : Option RuleHandle,
    (left ≠ none → FailsNext start .bind ∧ FailsNext start .deleteRule) ∧
    ∀ r, s.rules.get? r ≠ none → r ∈ reports.filterMap placedHandle? ∨ left = some r
  bound : ∀ t table, s.tables.get? t = some table →
    table.references = reports.flatMap (objectsFor t)

/-- Only opening tables can have spent a failure. -/
structure NothingPlaced (start : Switch) (requests : List RuleRequest)
    (reports : List RuleReport) (s : Switch) : Prop where
  names : reports.map RuleReport.name = requests.map RuleRequest.name
  unplaced : ∀ x ∈ reports, ∀ rule h, x.outcome = .ok (rule, h) → h = none
  empty : s.rules = Registries.empty
  unbound : ∀ t table, s.tables.get? t = some table → table.references = []
  armed : ∀ op, op ≠ .createTable → s.armed op = start.armed op

theorem tablesAgree_of_soFar {start s s' : Switch} {reports : List TableReport}
    {requests : List TableRequest} (h : TablesSoFar start reports s)
    (names : reports.map TableReport.name = requests.map TableRequest.name)
    (kinds : ∀ t, (s'.tables.get? t).map Table.kind = (s.tables.get? t).map Table.kind) :
    TablesAgree requests reports s' := by
  refine ⟨names, fun t k => ?_, h.distinct⟩
  rw [kinds]
  exact h.live t k

/-- The failures of rules are not spent by opening tables. -/
theorem rulesAgree_of_soFar {start u s : Switch} {requests : List RuleRequest}
    {reports : List RuleReport} (h : RulesSoFar u reports s)
    (names : reports.map RuleReport.name = requests.map RuleRequest.name)
    (armed : ∀ op, op ≠ .createTable → u.armed op = start.armed op) :
    RulesAgree start requests reports s := by
  refine ⟨names, h.stored, h.distinct, ?_, h.bound⟩
  obtain ⟨left, hleft, hothers⟩ := h.others
  refine ⟨left, fun hsome => ?_, hothers⟩
  obtain ⟨hbind, hdelete, -⟩ := hleft hsome
  have hbindOp : Operation.bind ≠ .createTable := by decide
  have hdeleteOp : Operation.deleteRule ≠ .createTable := by decide
  exact ⟨(failsNext_congr (armed _ hbindOp)).mp hbind,
    (failsNext_congr (armed _ hdeleteOp)).mp hdelete⟩

/-- On a new switch, with any failures armed, a run and its report agree, both when the rules
are placed and when they are only translated. -/
theorem run_agrees (settings : Settings) (scenario : Scenario)
    (armed : Operation → Option EngineStatus)
    (few : scenario.tables.length + scenario.rules.length < 2 ^ 26) :
    let placed := (run settings true scenario).run engine (armedSwitch armed)
    let dry := (run settings false scenario).run engine (armedSwitch armed)
    (TablesAgree scenario.tables placed.1.tables placed.2 ∧
      RulesAgree (armedSwitch armed) scenario.rules placed.1.rules placed.2) ∧
    TablesAgree scenario.tables dry.1.tables dry.2 ∧
      NothingPlaced (armedSwitch armed) scenario.rules dry.1.rules dry.2 := by
  intro placed dry
  have htables := tablesSoFar_each scenario.tables armed (by omega)
  have htableNames :=
    map_run_each (e := engine) (f := runTable) runTable_name scenario.tables (armedSwitch armed)
  have hplaced : placed = _ := run_run settings true scenario (armedSwitch armed)
  have hdry : dry = _ := run_run settings false scenario (armedSwitch armed)
  generalize (Session.each runTable scenario.tables).run engine (armedSwitch armed) = opening
    at htables htableNames hplaced hdry
  obtain ⟨tables, u⟩ := opening
  have hissued : u.issued ≤ scenario.tables.length := by
    have hlength : tables.length = scenario.tables.length := by
      rw [← List.length_map (f := TableReport.name), htableNames, List.length_map]
    have hle : u.issued ≤ tables.length := htables.issued
    omega
  rw [hplaced, hdry]
  constructor
  · have hrules := rulesSoFar_each (rulesSoFar_nil htables) settings tables scenario.rules
      (by simp only; omega)
    exact ⟨tablesAgree_of_soFar htables htableNames hrules.kinds,
      rulesAgree_of_soFar hrules (map_run_each (runRule_name settings true tables) _ _)
        htables.armed⟩
  · obtain ⟨hstate, hunplaced⟩ := each_translated settings tables scenario.rules u
    have hnames := map_run_each (runRule_name settings false tables) scenario.rules u
    simp only
    rw [hstate]
    exact ⟨tablesAgree_of_soFar htables htableNames fun _ => rfl, hnames, hunplaced, htables.rules,
      htables.unbound, htables.armed⟩

/-- One table and two rules that bind it. -/
def twoBindings : Scenario where
  tables := [⟨"uplink", [.dscp]⟩]
  rules :=
    [⟨"first", some "uplink", none, [⟨.inPort, .number 5, none⟩], []⟩,
      ⟨"second", some "uplink", none, [⟨.inPort, .number 6, none⟩], []⟩]

/-- Binding fails once, and so does taking a rule away. -/
def bothArmed : Operation → Option EngineStatus
  | .bind | .deleteRule => some .hwFailure
  | _ => none

/-- The first rule stays and only the second is reported as placed. -/
theorem run_agrees_twoBindings :
    let placed := (run ⟨.allowed, 30⟩ true twoBindings).run engine (armedSwitch bothArmed)
    let dry := (run ⟨.allowed, 30⟩ false twoBindings).run engine (armedSwitch bothArmed)
    (placed.2.rules.size = 2 ∧ placed.1.failures = 1 ∧ dry.1.failures = 0) ∧
    twoBindings.tables.length + twoBindings.rules.length < 2 ^ 26 ∧
    (TablesAgree twoBindings.tables placed.1.tables placed.2 ∧
      RulesAgree (armedSwitch bothArmed) twoBindings.rules placed.1.rules placed.2) ∧
    TablesAgree twoBindings.tables dry.1.tables dry.2 ∧
      NothingPlaced (armedSwitch bothArmed) twoBindings.rules dry.1.rules dry.2 := by
  refine ⟨⟨by decide, by decide, by decide⟩, by decide, ?_⟩
  exact run_agrees ⟨.allowed, 30⟩ twoBindings bothArmed (by decide)

end AccessList.Proofs.ScenarioRuns
