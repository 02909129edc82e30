import AccessList.Proofs.RuleMaking
import AccessList.Proofs.SwitchCalls
import AccessList.Runs

/-!
What the requests of a scenario do one by one. A list of sessions runs each in the state that
the one before it left, so what every one of them keeps holds at the end. A table request
opens a table or spends at most one failure; a rule request is translated without changing
the switch, and then placed if rules are to be placed.
-/
namespace AccessList.Proofs.RequestRuns

open Errors Fields Handles Limits Registries Reports Requests RuleMaking Rules Runs Scenarios
  Sessions SwitchCalls Switches Switch

section Each
variable {α β γ σ : Type} {e : Engine σ} {f : α → Session β}

theorem run_each_nil (s : σ) : (Session.each f []).run e s = ([], s) := rfl

theorem run_each_cons (a : α) (rest : List α) (s : σ) :
    (Session.each f (a :: rest)).run e s =
      (((f a).run e s).1 :: ((Session.each f rest).run e ((f a).run e s).2).1,
        ((Session.each f rest).run e ((f a).run e s).2).2) := by
  simp only [Session.each, Session.run_bind, Session.run_done]

/-- What each session adds to the results so far is kept to the end. The bound is there for
properties that need a free handle in every step. -/
theorem each_induction {I : List β → σ → Prop} {n : Nat}
    (step : ∀ a done s, done.length < n → I done s →
      I (done ++ [((f a).run e s).1]) ((f a).run e s).2)
    (as : List α) (done : List β) (s : σ) (room : done.length + as.length ≤ n)
    (start : I done s) :
    I (done ++ ((Session.each f as).run e s).1) ((Session.each f as).run e s).2 := by
  induction as generalizing done s with
  | nil =>
    rw [run_each_nil, List.append_nil]
    exact start
  | cons a rest ih =>
    rw [List.length_cons] at room
    have hnext := step a done s (by omega) start
    have hroom : (done ++ [((f a).run e s).1]).length + rest.length ≤ n := by
      rw [List.length_append, List.length_singleton]
      omega
    have hrest := ih _ _ hroom hnext
    rw [List.append_assoc, List.singleton_append] at hrest
    rw [run_each_cons]
    exact hrest

theorem map_run_each {g : β → γ} {g' : α → γ} (h : ∀ a s, g ((f a).run e s).1 = g' a)
    (as : List α) (s : σ) : ((Session.each f as).run e s).1.map g = as.map g' := by
  induction as generalizing s with
  | nil => rfl
  | cons a rest ih => rw [run_each_cons, List.map_cons, List.map_cons, h, ih]

end Each

theorem runTable_cases (request : TableRequest) (s : Switch) :
    (∃ cause s', (runTable request).run engine s = (⟨request.name, .error cause⟩, s') ∧
      (s' = s ∨ s' = s.disarm .createTable)) ∨
    ∃ k, (runTable request).run engine s =
      (⟨request.name, .ok (k, handle .table (s.issued + 1))⟩,
        opened (s.disarm .createTable) k) := by
  unfold runTable openTable
  cases hfit : Roles.fitting? request.qualifiers with
  | none => exact Or.inl ⟨_, s, rfl, Or.inl rfl⟩
  | some k =>
    simp only [Session.bind_ask, Session.run_ask, Session.bind_done]
    have hanswer : engine.answer (.createTable k) s = s.createTable k := rfl
    rcases createTable_cases k s with ⟨cause, -, hcreate⟩ | ⟨-, hcreate⟩
    · rw [hanswer, hcreate]
      exact Or.inl ⟨.engine cause, _, rfl, Or.inr rfl⟩
    · have hlive : (opened (s.disarm .createTable) k).tables.get?
          (handle .table (s.issued + 1)) = some ⟨k, []⟩ :=
        (Registry.get?_insert s.tables _ _ _).trans (if_pos rfl)
      have hkind : engine.answer (.tableKind (handle .table (s.issued + 1)))
          (opened (s.disarm .createTable) k) =
          (.ok k, opened (s.disarm .createTable) k) := tableKind_of_live hlive
      rw [hanswer, hcreate]
      refine Or.inr ⟨k, ?_⟩
      simp only [passOn, kindOf, Session.bind_ask, Session.run_ask, hkind, Session.bind_done,
        Session.run_done]

theorem runTable_name (request : TableRequest) (s : Switch) :
    ((runTable request).run engine s).1.name = request.name := by
  rcases runTable_cases request s with ⟨cause, s', hrun, -⟩ | ⟨k, hrun⟩
  · rw [hrun]
  · rw [hrun]

/-- The rule that attributes describe on a switch. Asking for it changes nothing. -/
def prepared (settings : Settings) (attrs : List Attributes.Attribute) (s : Switch) :
    Except RequestError Rule :=
  match Attributes.tableOf attrs with
  | .error cause => .error cause
  | .ok t =>
    match s.tables.get? t with
    | none => .error (.unknownTable t (.invalidHandle t.raw))
    | some table => Rule.ofAttributes settings t table.kind attrs

section Prepared
variable {attrs : List Attributes.Attribute} {s : Switch} {t : TableHandle}

theorem prepared_of_error (settings : Settings) (s : Switch) {cause : RequestError}
    (h : Attributes.tableOf attrs = .error cause) : prepared settings attrs s = .error cause := by
  simp only [prepared, h]

theorem prepared_of_dead (settings : Settings) (h : Attributes.tableOf attrs = .ok t)
    (hdead : s.tables.get? t = none) :
    prepared settings attrs s = .error (.unknownTable t (.invalidHandle t.raw)) := by
  simp only [prepared, h, hdead]

theorem prepared_of_live (settings : Settings) {table : Table}
    (h : Attributes.tableOf attrs = .ok t) (hlive : s.tables.get? t = some table) :
    prepared settings attrs s = Rule.ofAttributes settings t table.kind attrs := by
  simp only [prepared, h, hlive]

end Prepared

theorem run_prepare (settings : Settings) (attrs : List Attributes.Attribute) (s : Switch) :
    (prepare settings attrs).run engine s = (prepared settings attrs s, s) := by
  unfold prepare prepared
  cases htable : Attributes.tableOf attrs with
  | error cause => rfl
  | ok t =>
    simp only [kindOf, Session.bind_ask, Session.run_ask]
    have hanswer : engine.answer (.tableKind t) s = s.tableKind t := rfl
    rw [hanswer]
    cases hlive : s.tables.get? t with
    | none =>
      rw [tableKind_of_dead hlive]
      rfl
    | some table =>
      rw [tableKind_of_live hlive]
      rfl

/-- What was prepared is described by the attributes for a live table, of its kind. -/
theorem ofAttributes_of_prepared {settings : Settings} {attrs : List Attributes.Attribute}
    {s : Switch} {rule : Rule} (h : prepared settings attrs s = .ok rule) :
    ∃ table, s.tables.get? rule.table = some table ∧
      Rule.ofAttributes settings rule.table table.kind attrs = .ok rule := by
  unfold prepared at h
  split at h
  next => cases h
  next t htable =>
    split at h
    next => cases h
    next table hlive =>
      have hrule : rule.table = t := (described_of_ofAttributes h).table
      rw [hrule]
      exact ⟨table, hlive, h⟩

theorem live_of_prepared {settings : Settings} {attrs : List Attributes.Attribute}
    {s : Switch} {rule : Rule} (h : prepared settings attrs s = .ok rule) :
    (∃ table, s.tables.get? rule.table = some table) ∧ 0 ∉ rule.references := by
  obtain ⟨table, hlive, hmade⟩ := ofAttributes_of_prepared h
  exact ⟨⟨table, hlive⟩, references_of_ofAttributes hmade⟩

/-- The rule of a request on a switch, or why there is none. -/
def translated (settings : Settings) (tables : List TableReport) (request : RuleRequest)
    (s : Switch) : Except Failure Rule :=
  match request.attributes (tableNamed tables) with
  | .error cause => .error (.notSubmitted cause)
  | .ok attrs =>
    match prepared settings attrs s with
    | .error cause => .error (.request cause)
    | .ok rule => .ok rule

/-- The report of a rule after the attempt to place it. -/
def placingReport (name : String) (rule : Rule) :
    Except RequestError RuleHandle → RuleReport
  | .error cause => ⟨name, .error (.request cause)⟩
  | .ok r => ⟨name, .ok (rule, some r)⟩

theorem run_runRule (settings : Settings) (placing : Bool) (tables : List TableReport)
    (request : RuleRequest) (s : Switch) :
    (runRule settings placing tables request).run engine s =
      match translated settings tables request s with
      | .error failure => (⟨request.name, .error failure⟩, s)
      | .ok rule =>
        if placing then
          (placingReport request.name rule ((place rule).run engine s).1,
            ((place rule).run engine s).2)
        else (⟨request.name, .ok (rule, none)⟩, s) := by
  unfold runRule translated
  cases hattrs : request.attributes (tableNamed tables) with
  | error cause => rfl
  | ok attrs =>
    simp only [Session.run_bind, run_prepare]
    cases hrule : prepared settings attrs s with
    | error cause => rfl
    | ok rule =>
      cases placing with
      | false => rfl
      | true =>
        simp only [if_true, Session.run_bind]
        cases hplace : ((place rule).run engine s).1 with
        | error cause => rfl
        | ok r => rfl

theorem prepared_of_translated {settings : Settings} {tables : List TableReport}
    {request : RuleRequest} {s : Switch} {rule : Rule}
    (h : translated settings tables request s = .ok rule) :
    ∃ attrs, prepared settings attrs s = .ok rule := by
  unfold translated at h
  split at h
  next => cases h
  next attrs hattrs =>
    split at h
    next => cases h
    next other hprepared =>
      cases h
      exact ⟨attrs, hprepared⟩

theorem live_of_translated {settings : Settings} {tables : List TableReport}
    {request : RuleRequest} {s : Switch} {rule : Rule}
    (h : translated settings tables request s = .ok rule) :
    (∃ table, s.tables.get? rule.table = some table) ∧ 0 ∉ rule.references := by
  obtain ⟨attrs, hprepared⟩ := prepared_of_translated h
  exact live_of_prepared hprepared

theorem runRule_name (settings : Settings) (placing : Bool) (tables : List TableReport)
    (request : RuleRequest) (s : Switch) :
    ((runRule settings placing tables request).run engine s).1.name = request.name := by
  rw [run_runRule]
  cases translated settings tables request s with
  | error failure => rfl
  | ok rule =>
    cases placing with
    | false => rfl
    | true =>
      simp only [if_true]
      cases ((place rule).run engine s).1 <;> rfl

theorem run_run (settings : Settings) (placing : Bool) (scenario : Scenario) (s : Switch) :
    (run settings placing scenario).run engine s =
      let tables := (Session.each runTable scenario.tables).run engine s
      let rules :=
        (Session.each (runRule settings placing tables.1) scenario.rules).run engine tables.2
      (⟨tables.1, rules.1⟩, rules.2) := by
  simp only [run, Session.run_bind, Session.run_done]

end AccessList.Proofs.RequestRuns
