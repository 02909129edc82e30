import AccessList.Proofs.DryRuns

/-!
A request that fails on a switch where no failure is armed leaves the switch as it was and
names no table. So a scenario from which some of the failed requests of its run are taken out
runs to the same switch, and to the same reports for the requests that are left.
-/
namespace AccessList.Proofs.FailedRequests

open DryRuns Errors Fields Handles Limits PreparedRules Reports RequestRuns Requests Rules Runs
  Scenarios Sessions SwitchCalls Switches Switch

section Keeping
variable {α β γ σ : Type}

/-- The elements at the positions that are kept. -/
def kept (keep : Nat → Bool) : List α → List α
  | [] => []
  | a :: rest =>
    if keep 0 then a :: kept (fun i => keep (i + 1)) rest
    else kept (fun i => keep (i + 1)) rest

/-- Every element at a position that is not kept is idle. -/
def DropsOnly (idle : α → Bool) (keep : Nat → Bool) (as : List α) : Prop :=
  ∀ i a, as[i]? = some a → keep i = false → idle a = true

theorem DropsOnly.head {idle : α → Bool} {keep : Nat → Bool} {a : α} {rest : List α}
    (h : DropsOnly idle keep (a :: rest)) (hdropped : keep 0 = false) : idle a = true :=
  h 0 a rfl hdropped

theorem DropsOnly.tail {idle : α → Bool} {keep : Nat → Bool} {a : α} {rest : List α}
    (h : DropsOnly idle keep (a :: rest)) : DropsOnly idle (fun i => keep (i + 1)) rest :=
  fun i b hb hdropped => h (i + 1) b hb hdropped

/-- What only kept elements give is not changed by dropping the others. -/
theorem filterMap_kept {idle : α → Bool} {f : α → Option γ}
    (hidle : ∀ a, idle a = true → f a = none) {keep : Nat → Bool} {as : List α}
    (h : DropsOnly idle keep as) : (kept keep as).filterMap f = as.filterMap f := by
  induction as generalizing keep with
  | nil => rfl
  | cons a rest ih =>
    cases hkeep : keep 0 with
    | true =>
      simp only [kept, hkeep, if_true, List.filterMap_cons]
      rw [ih h.tail]
    | false =>
      simp only [kept, hkeep, Bool.false_eq_true, if_false]
      rw [ih h.tail, List.filterMap_cons, hidle a (h.head hkeep)]

/-- Sessions that leave the state alone where they are idle can be dropped there. -/
theorem run_each_kept {e : Engine σ} {f : α → Session β} {I : σ → Prop} {idle : β → Bool}
    (stays : ∀ a s, I s → idle ((f a).run e s).1 = true → ((f a).run e s).2 = s)
    (step : ∀ a s, I s → I ((f a).run e s).2) {keep : Nat → Bool} {as : List α} {s : σ}
    (start : I s) (h : DropsOnly idle keep ((Session.each f as).run e s).1) :
    (Session.each f (kept keep as)).run e s =
      (kept keep ((Session.each f as).run e s).1, ((Session.each f as).run e s).2) := by
  induction as generalizing keep s with
  | nil => rfl
  | cons a rest ih =>
    rw [run_each_cons] at h ⊢
    have hrest := ih (step a s start) h.tail
    cases hkeep : keep 0 with
    | true =>
      simp only [kept, hkeep, if_true]
      rw [run_each_cons, hrest]
    | false =>
      have hstays : ((f a).run e s).2 = s := stays a s start (h.head hkeep)
      rw [hstays] at hrest
      simp only [kept, hkeep, Bool.false_eq_true, if_false, hstays]
      exact hrest

end Keeping

/-- A table request fails without a call that could change anything. -/
theorem runTable_of_failed (request : TableRequest) {s : Switch} (hs : Unarmed s)
    (h : failed ((runTable request).run engine s).1.outcome = true) :
    ((runTable request).run engine s).2 = s := by
  rcases runTable_cases request s with ⟨cause, s', hrun, hsame | hspent⟩ | ⟨k, hrun⟩
  · rw [hrun]
    exact hsame
  · rw [hrun, hspent]
    exact disarm_of_unarmed (hs .createTable)
  · rw [hrun] at h
    cases h

/-- A rule that is translated is placed, so one that fails never got so far. -/
theorem runRule_of_failed (settings : Settings) (tables : List TableReport)
    (request : RuleRequest) {s : Switch} (hs : Unarmed s)
    (h : failed ((runRule settings true tables request).run engine s).1.outcome = true) :
    ((runRule settings true tables request).run engine s).2 = s := by
  cases htranslated : translated settings tables request s with
  | error failure => rw [run_runRule_of_failed true htranslated]
  | ok rule =>
    rw [run_runRule_of_translated hs true htranslated] at h
    cases h

/-- A table that was not opened is not found under its name. -/
theorem tableNamed_kept {keep : Nat → Bool} {tables : List TableReport}
    (h : DropsOnly (fun x => failed x.outcome) keep tables) :
    tableNamed (kept keep tables) = tableNamed tables := by
  funext name
  unfold tableNamed
  rw [filterMap_kept _ h]
  rintro ⟨other, outcome⟩ hfailed
  cases outcome with
  | error cause => rfl
  | ok given => cases hfailed

/-- Of the tables reported so far a rule asks only which handle a name stands for. -/
theorem runRule_congr (settings : Settings) (placing : Bool) {tables tables' : List TableReport}
    (h : tableNamed tables' = tableNamed tables) :
    runRule settings placing tables' = runRule settings placing tables := by
  funext request
  unfold runRule
  rw [h]

theorem run_kept {settings : Settings} {scenario : Scenario} {s : Switch} (hs : Unarmed s)
    {keepTables keepRules : Nat → Bool}
    (htables : DropsOnly (fun x => failed x.outcome) keepTables
      ((run settings true scenario).run engine s).1.tables)
    (hrules : DropsOnly (fun x => failed x.outcome) keepRules
      ((run settings true scenario).run engine s).1.rules) :
    (run settings true ⟨kept keepTables scenario.tables, kept keepRules scenario.rules⟩).run
        engine s =
      (⟨kept keepTables ((run settings true scenario).run engine s).1.tables,
        kept keepRules ((run settings true scenario).run engine s).1.rules⟩,
        ((run settings true scenario).run engine s).2) := by
  rw [run_run] at htables hrules
  have hopening := run_each_kept (I := Unarmed) (fun request u hu => runTable_of_failed request hu)
    (fun request u hu => unarmed_run hu _) hs htables
  have hopened : Unarmed ((Session.each runTable scenario.tables).run engine s).2 :=
    unarmed_run hs _
  have hplacing := run_each_kept (I := Unarmed)
    (fun request u hu => runRule_of_failed settings _ request hu)
    (fun request u hu => unarmed_run hu _) hopened hrules
  rw [run_run, run_run]
  simp only [hopening]
  rw [runRule_congr settings true (tableNamed_kept htables), hplacing]

/-- On a new switch the failed requests of a scenario, any of them, can be left out: the rest
is reported as before, with the same handles, and the switch comes out the same. -/
theorem failed_requests_leave_no_trace (settings : Settings) (scenario : Scenario)
    (keepTables keepRules : Nat → Bool) :
    let whole := (run settings true scenario).run engine Switch.empty
    let rest := (run settings true
      ⟨kept keepTables scenario.tables, kept keepRules scenario.rules⟩).run engine Switch.empty
    DropsOnly (fun x => failed x.outcome) keepTables whole.1.tables →
    DropsOnly (fun x => failed x.outcome) keepRules whole.1.rules →
    rest.1.tables = kept keepTables whole.1.tables ∧
      rest.1.rules = kept keepRules whole.1.rules ∧ rest.2 = whole.2 := by
  intro whole rest htables hrules
  have hrun : rest = _ := run_kept (fun _ => rfl) htables hrules
  rw [hrun]
  exact ⟨rfl, rfl, rfl⟩

/-- Two tables of one name, of which the second cannot be opened, and a third. The first and
the third of the rules fail, one for its table and one for want of a key. -/
def halfFailing : Scenario where
  tables := [⟨"edge", [.ttl, .inPort]⟩, ⟨"edge", [.ttl, .srcMac]⟩, ⟨"core", [.etherType]⟩]
  rules :=
    [⟨"stray", some "rim", none, [], []⟩,
      ⟨"alive", some "edge", some 7, [⟨.ttl, .number 64, none⟩, ⟨.inPort, .number 5, none⟩], []⟩,
      ⟨"bare", some "core", none, [], [.flood]⟩,
      ⟨"frames", some "core", none, [⟨.etherType, .number 2048, none⟩], [.packet .drop]⟩]

theorem dropsOnly_of_single {α : Type} {idle : α → Bool} {n : Nat} {as : List α}
    (h : as[n]?.map idle = some true) : DropsOnly idle (fun i => decide (i ≠ n)) as := by
  intro i a ha hdropped
  have hi : i = n := by simpa using hdropped
  rw [← hi, ha] at h
  exact Option.some.inj h

/-- Without the second table and the first rule, the rule that is left to fail still fails. -/
theorem failed_requests_leave_no_trace_halfFailing :
    let whole := (run standard true halfFailing).run engine Switch.empty
    let rest := (run standard true
      ⟨kept (fun i => decide (i ≠ 1)) halfFailing.tables,
        kept (fun i => decide (i ≠ 0)) halfFailing.rules⟩).run engine Switch.empty
    (whole.1.failures = 3 ∧ rest.1.failures = 1 ∧ rest.2.issued = 4 ∧
      (rest.1.rules.map RuleReport.name = ["alive", "bare", "frames"])) ∧
    DropsOnly (fun x => failed x.outcome) (fun i => decide (i ≠ 1)) whole.1.tables ∧
    DropsOnly (fun x => failed x.outcome) (fun i => decide (i ≠ 0)) whole.1.rules ∧
    rest.1.tables = kept (fun i => decide (i ≠ 1)) whole.1.tables ∧
      rest.1.rules = kept (fun i => decide (i ≠ 0)) whole.1.rules ∧ rest.2 = whole.2 := by
  intro whole rest
  have htables : DropsOnly (fun x => failed x.outcome) (fun i => decide (i ≠ 1))
      whole.1.tables := dropsOnly_of_single (by decide)
  have hrules : DropsOnly (fun x => failed x.outcome) (fun i => decide (i ≠ 0))
      whole.1.rules := dropsOnly_of_single (by decide)
  exact ⟨⟨by decide, by decide, by decide, by decide⟩, htables, hrules,
    failed_requests_leave_no_trace standard halfFailing _ _ htables hrules⟩

end AccessList.Proofs.FailedRequests
