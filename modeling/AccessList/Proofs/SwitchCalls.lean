import AccessList.Switches

/-!
What each call does to a switch. A call spends the failure that is armed for its operation,
and if it fails it changes nothing else. If it succeeds it makes one of five changes to the
tables and rules, and the conditions under which it makes that change are listed with it,
together with the answer. Anything that all five changes keep is kept by every call.
-/
namespace AccessList.Proofs.SwitchCalls

open Errors Fields Handles Registries Rules Sessions Statuses Switches Switch

/-- An armed failure that strikes; the status of success does not. -/
def FailsNext (s : Switch) (op : Operation) : Prop :=
  ∃ status, s.armed op = some status ∧ status ≠ .success

/-- What the armed failure makes of the next call of an operation. -/
def fault (s : Switch) (op : Operation) : Except EngineError Unit :=
  match s.armed op with
  | none => .ok ()
  | some status => outcome status

theorem failsNext_iff (s : Switch) (op : Operation) :
    FailsNext s op ↔ ∃ cause, fault s op = .error cause := by
  unfold fault FailsNext
  cases h : s.armed op with
  | none => simp
  | some status => by_cases hs : status = .success <;> simp [outcome, hs]

/-- No failure is armed at all. -/
def Unarmed (s : Switch) : Prop := ∀ op, s.armed op = none

theorem Unarmed.spared {s : Switch} (h : Unarmed s) (op : Operation) : ¬ FailsNext s op := by
  rintro ⟨status, harmed, -⟩
  rw [h op] at harmed
  cases harmed

theorem fault_of_spared {s : Switch} {op : Operation} (h : ¬ FailsNext s op) :
    fault s op = .ok () := by
  cases hfault : fault s op with
  | error cause => exact absurd ((failsNext_iff s op).mpr ⟨cause, hfault⟩) h
  | ok _ => rfl

/-- A failure that strikes is reported as the status that was armed. -/
theorem status_of_fault {s : Switch} {op : Operation} {cause : EngineError}
    (h : fault s op = .error cause) :
    ∃ status, s.armed op = some status ∧ status ≠ .success ∧ cause = .ofStatus status := by
  unfold fault at h
  cases harmed : s.armed op with
  | none =>
    rw [harmed] at h
    cases h
  | some status =>
    rw [harmed] at h
    by_cases hsuccess : status = .success
    · rw [hsuccess] at h
      cases h
    · refine ⟨status, rfl, hsuccess, ?_⟩
      simp only [outcome, if_neg hsuccess] at h
      exact (Except.error.inj h).symm

@[simp] theorem disarm_issued (s : Switch) (op : Operation) :
    (s.disarm op).issued = s.issued := rfl

@[simp] theorem disarm_tables (s : Switch) (op : Operation) :
    (s.disarm op).tables = s.tables := rfl

@[simp] theorem disarm_rules (s : Switch) (op : Operation) :
    (s.disarm op).rules = s.rules := rfl

theorem disarm_armed (s : Switch) (op o : Operation) :
    (s.disarm op).armed o = if o = op then none else s.armed o := rfl

theorem disarm_of_unarmed {s : Switch} {op : Operation} (h : s.armed op = none) :
    s.disarm op = s := by
  have harmed : (fun o => if o = op then none else s.armed o) = s.armed := by
    funext o
    by_cases ho : o = op
    · rw [if_pos ho, ho, h]
    · rw [if_neg ho]
  simp only [disarm, harmed]

theorem strike_eq (s : Switch) (op : Operation) :
    s.strike op = (fault s op, s.disarm op) := by
  unfold strike fault
  cases h : s.armed op with
  | none => simp only [disarm_of_unarmed h]
  | some status => rfl

/-- A new table under the next handle. -/
def opened (s : Switch) (k : Kind) : Switch :=
  { s with
    issued := s.issued + 1
    tables := s.tables.insert (handle .table (s.issued + 1)) ⟨k, []⟩ }

def closed (s : Switch) (t : TableHandle) : Switch :=
  { s with tables := s.tables.erase t }

/-- A new rule under the next handle. -/
def stored (s : Switch) (e : Entry) : Switch :=
  { s with
    issued := s.issued + 1
    rules := s.rules.insert (handle .rule (s.issued + 1)) e }

def withdrawn (s : Switch) (r : RuleHandle) : Switch :=
  { s with rules := s.rules.erase r }

def Table.extended (table : Table) (objects : List ObjectId) : Table :=
  { table with references := table.references ++ objects }

/-- A table bound to more objects; a dead one stays dead. -/
def extended (s : Switch) (t : TableHandle) (objects : List ObjectId) : Switch :=
  match s.tables.get? t with
  | none => s
  | some table => { s with tables := s.tables.insert t (Table.extended table objects) }

theorem extended_of_live {s : Switch} {t : TableHandle} {table : Table}
    (objects : List ObjectId) (h : s.tables.get? t = some table) :
    extended s t objects =
      { s with tables := s.tables.insert t (Table.extended table objects) } := by
  simp only [extended, h]

@[simp] theorem extended_issued (s : Switch) (t : TableHandle) (objects : List ObjectId) :
    (extended s t objects).issued = s.issued := by
  unfold extended
  split <;> rfl

@[simp] theorem extended_rules (s : Switch) (t : TableHandle) (objects : List ObjectId) :
    (extended s t objects).rules = s.rules := by
  unfold extended
  split <;> rfl

@[simp] theorem extended_armed (s : Switch) (t : TableHandle) (objects : List ObjectId) :
    (extended s t objects).armed = s.armed := by
  unfold extended
  split <;> rfl

theorem get?_extended (s : Switch) (t u : TableHandle) (objects : List ObjectId) :
    (extended s t objects).tables.get? u =
      if t = u then (s.tables.get? u).map (Table.extended · objects)
      else s.tables.get? u := by
  cases h : s.tables.get? t with
  | none =>
    have hself : extended s t objects = s := by simp only [extended, h]
    rw [hself]
    split
    next htu =>
      subst htu
      rw [h]
      rfl
    next => rfl
  | some table =>
    rw [extended_of_live objects h, Registry.get?_insert]
    split
    next htu =>
      subst htu
      rw [h]
      rfl
    next => rfl

theorem extended_nil (s : Switch) (t : TableHandle) : extended s t [] = s := by
  cases h : s.tables.get? t with
  | none => simp only [extended, h]
  | some table =>
    have htable : Table.extended table [] = table := by simp only [Table.extended, List.append_nil]
    rw [extended_of_live [] h, htable, Registry.insert_of_get? h]

theorem extended_extended (s : Switch) (t : TableHandle) (before after : List ObjectId) :
    extended (extended s t before) t after = extended s t (before ++ after) := by
  cases h : s.tables.get? t with
  | none => simp only [extended, h]
  | some table =>
    have hlive : (extended s t before).tables.get? t = some (Table.extended table before) := by
      rw [get?_extended, if_pos rfl, h]
      rfl
    rw [extended_of_live after hlive, extended_of_live before h, extended_of_live _ h]
    simp only [Registry.insert_insert, Table.extended, List.append_assoc]

theorem extended_disarm (s : Switch) (op : Operation) (t : TableHandle)
    (objects : List ObjectId) :
    extended (s.disarm op) t objects = (extended s t objects).disarm op := by
  unfold extended
  rw [disarm_tables]
  split <;> rfl

theorem disarm_disarm (s : Switch) (op : Operation) :
    (s.disarm op).disarm op = s.disarm op :=
  disarm_of_unarmed (by rw [disarm_armed, if_pos rfl])

theorem createTable_cases (k : Kind) (s : Switch) :
    (∃ cause, fault s .createTable = .error cause ∧
      s.createTable k = (.error cause, s.disarm .createTable)) ∨
    fault s .createTable = .ok () ∧
      s.createTable k =
        (.ok (handle .table (s.issued + 1)), opened (s.disarm .createTable) k) := by
  unfold createTable
  rw [strike_eq]
  cases hfault : fault s .createTable with
  | error cause => exact Or.inl ⟨cause, rfl, rfl⟩
  | ok _ => exact Or.inr ⟨rfl, rfl⟩

theorem deleteTable_cases (t : TableHandle) (s : Switch) :
    (∃ cause, s.deleteTable t = (.error cause, s.disarm .deleteTable)) ∨
    ∃ table, s.tables.get? t = some table ∧ (∀ e ∈ s.rules.values, e.table ≠ t) ∧
      s.deleteTable t = (.ok (), closed (s.disarm .deleteTable) t) := by
  unfold deleteTable
  rw [strike_eq]
  cases hfault : fault s .deleteTable with
  | error cause => exact Or.inl ⟨cause, rfl⟩
  | ok _ =>
    by_cases hdead : ((s.disarm .deleteTable).tables.get? t).isNone = true
    · exact Or.inl ⟨_, if_pos hdead⟩
    · obtain ⟨table, htable⟩ : ∃ table, s.tables.get? t = some table :=
        Option.ne_none_iff_exists'.mp (by simpa using hdead)
      by_cases hused : ((s.disarm .deleteTable).rules.values.any fun e => e.table = t) = true
      · exact Or.inl ⟨_, (if_neg hdead).trans (if_pos hused)⟩
      · refine Or.inr ⟨table, htable, ?_, (if_neg hdead).trans (if_neg hused)⟩
        simpa using hused

theorem tableKind_of_live {s : Switch} {t : TableHandle} {table : Table}
    (h : s.tables.get? t = some table) : s.tableKind t = (.ok table.kind, s) := by
  simp only [tableKind, h]

theorem tableKind_of_dead {s : Switch} {t : TableHandle} (h : s.tables.get? t = none) :
    s.tableKind t = (.error (.invalidHandle t.raw), s) := by
  simp only [tableKind, h]

theorem createRule_of_live {s : Switch} {e : Entry} {table : Table}
    (hlive : s.tables.get? e.table = some table) (htaken : refusal? table.kind e = none) :
    s.createRule e =
      match fault s .createRule with
      | .error cause => (.error cause, s.disarm .createRule)
      | .ok () => (.ok (handle .rule (s.issued + 1)), stored (s.disarm .createRule) e) := by
  unfold createRule
  rw [strike_eq]
  cases hfault : fault s .createRule with
  | error cause => rfl
  | ok _ =>
    simp only [disarm_tables, hlive, htaken]
    rfl

theorem createRule_of_dead {s : Switch} {e : Entry} (h : s.tables.get? e.table = none) :
    s.createRule e =
      match fault s .createRule with
      | .error cause => (.error cause, s.disarm .createRule)
      | .ok () => (.error (.invalidHandle e.table.raw), s.disarm .createRule) := by
  unfold createRule
  rw [strike_eq]
  cases hfault : fault s .createRule with
  | error cause => rfl
  | ok _ => simp only [disarm_tables, h]

theorem createRule_cases (e : Entry) (s : Switch) :
    (∃ cause, s.createRule e = (.error cause, s.disarm .createRule)) ∨
    ∃ table, s.tables.get? e.table = some table ∧ refusal? table.kind e = none ∧
      s.createRule e =
        (.ok (handle .rule (s.issued + 1)), stored (s.disarm .createRule) e) := by
  unfold createRule
  rw [strike_eq]
  cases hfault : fault s .createRule with
  | error cause => exact Or.inl ⟨cause, rfl⟩
  | ok _ =>
    simp only [disarm_tables]
    cases hlive : s.tables.get? e.table with
    | none => exact Or.inl ⟨.invalidHandle e.table.raw, rfl⟩
    | some table =>
      cases hrefusal : refusal? table.kind e with
      | some reason => exact Or.inl ⟨.invalidParameter reason, by simp only [hrefusal]⟩
      | none => exact Or.inr ⟨table, rfl, hrefusal, by simp only [hrefusal]; rfl⟩

theorem deleteRule_of_stored {s : Switch} {r : RuleHandle} {e : Entry}
    (h : s.rules.get? r = some e) :
    s.deleteRule r =
      match fault s .deleteRule with
      | .error cause => (.error cause, s.disarm .deleteRule)
      | .ok () => (.ok (), withdrawn (s.disarm .deleteRule) r) := by
  unfold deleteRule
  rw [strike_eq]
  cases hfault : fault s .deleteRule with
  | error cause => rfl
  | ok _ =>
    simp only [disarm_rules, h]
    rfl

theorem deleteRule_cases (r : RuleHandle) (s : Switch) :
    (∃ cause, s.deleteRule r = (.error cause, s.disarm .deleteRule)) ∨
    ∃ e, s.rules.get? r = some e ∧
      s.deleteRule r = (.ok (), withdrawn (s.disarm .deleteRule) r) := by
  cases hstored : s.rules.get? r with
  | none =>
    unfold deleteRule
    rw [strike_eq]
    cases hfault : fault s .deleteRule with
    | error cause => exact Or.inl ⟨cause, rfl⟩
    | ok _ =>
      simp only [disarm_rules, hstored]
      exact Or.inl ⟨.invalidHandle r.raw, rfl⟩
  | some e =>
    rw [deleteRule_of_stored hstored]
    cases hfault : fault s .deleteRule with
    | error cause => exact Or.inl ⟨cause, rfl⟩
    | ok _ => exact Or.inr ⟨e, rfl, rfl⟩

theorem bind_of_live {s : Switch} {t : TableHandle} {table : Table} {object : ObjectId}
    (h : s.tables.get? t = some table) (hreal : object ≠ 0) :
    s.bind t object =
      match fault s .bind with
      | .error cause => (.error cause, s.disarm .bind)
      | .ok () => (.ok (), extended (s.disarm .bind) t [object]) := by
  unfold Switch.bind
  rw [strike_eq]
  cases hfault : fault s .bind with
  | error cause => rfl
  | ok _ =>
    rw [extended_of_live [object] (by rwa [disarm_tables])]
    simp only [disarm_tables, h, if_neg hreal]
    rfl

theorem bind_cases (t : TableHandle) (object : ObjectId) (s : Switch) :
    (∃ cause, s.bind t object = (.error cause, s.disarm .bind)) ∨
    ∃ table, s.tables.get? t = some table ∧ object ≠ 0 ∧
      s.bind t object = (.ok (), extended (s.disarm .bind) t [object]) := by
  by_cases hlive : object ≠ 0 ∧ ∃ table, s.tables.get? t = some table
  · obtain ⟨hreal, table, htable⟩ := hlive
    rw [bind_of_live htable hreal]
    cases hfault : fault s .bind with
    | error cause => exact Or.inl ⟨cause, rfl⟩
    | ok _ => exact Or.inr ⟨table, htable, hreal, rfl⟩
  · unfold Switch.bind
    rw [strike_eq]
    cases hfault : fault s .bind with
    | error cause => exact Or.inl ⟨cause, rfl⟩
    | ok _ =>
      by_cases hnull : object = 0
      · exact Or.inl ⟨.invalidHandle object, by simp only [if_pos hnull]⟩
      · cases htable : s.tables.get? t with
        | none =>
          exact Or.inl ⟨.invalidHandle t.raw, by
            simp only [if_neg hnull, disarm_tables, htable]⟩
        | some table => exact absurd ⟨hnull, table, htable⟩ hlive

/-- The operation whose failures a call meets. Asking for a kind never fails on purpose. -/
def operation? : Call → Option Operation
  | .createTable _ => some .createTable
  | .deleteTable _ => some .deleteTable
  | .tableKind _ => none
  | .createRule _ => some .createRule
  | .deleteRule _ => some .deleteRule
  | .bind _ _ => some .bind

/-- A switch after a call has met the failure armed for it. -/
def spent (s : Switch) (c : Call) : Switch :=
  match operation? c with
  | none => s
  | some op => s.disarm op

/-- What a call does together with its answer, beside the failure it spends. -/
inductive Performed (s : Switch) : (c : Call) → Answer c → Switch → Prop
  | failed (c : Call) (cause : EngineError) : Performed s c (.error cause) s
  | asked {t : TableHandle} {table : Table} (live : s.tables.get? t = some table) :
      Performed s (.tableKind t) (.ok table.kind) s
  | opened (k : Kind) :
      Performed s (.createTable k) (.ok (handle .table (s.issued + 1))) (opened s k)
  | closed {t : TableHandle} {table : Table} (live : s.tables.get? t = some table)
      (unused : ∀ e ∈ s.rules.values, e.table ≠ t) :
      Performed s (.deleteTable t) (.ok ()) (closed s t)
  | stored {e : Entry} {table : Table} (live : s.tables.get? e.table = some table)
      (taken : refusal? table.kind e = none) :
      Performed s (.createRule e) (.ok (handle .rule (s.issued + 1))) (stored s e)
  | withdrawn {r : RuleHandle} {e : Entry} (held : s.rules.get? r = some e) :
      Performed s (.deleteRule r) (.ok ()) (withdrawn s r)
  | extended {t : TableHandle} {table : Table} {object : ObjectId}
      (live : s.tables.get? t = some table) (real : object ≠ 0) :
      Performed s (.bind t object) (.ok ()) (extended s t [object])

theorem performed_answer (c : Call) (s : Switch) :
    Performed (spent s c) c (s.answer c).1 (s.answer c).2 := by
  cases c with
  | createTable k =>
    show Performed (s.disarm .createTable) (.createTable k) (s.createTable k).1
      (s.createTable k).2
    rcases createTable_cases k s with ⟨cause, -, h⟩ | ⟨-, h⟩
    · rw [h]
      exact .failed (.createTable k) cause
    · rw [h]
      exact .opened k
  | deleteTable t =>
    show Performed (s.disarm .deleteTable) (.deleteTable t) (s.deleteTable t).1
      (s.deleteTable t).2
    rcases deleteTable_cases t s with ⟨cause, h⟩ | ⟨table, hlive, hunused, h⟩
    · rw [h]
      exact .failed (.deleteTable t) cause
    · rw [h]
      exact .closed (s := s.disarm .deleteTable) hlive hunused
  | tableKind t =>
    show Performed s (.tableKind t) (s.tableKind t).1 (s.tableKind t).2
    cases hlive : s.tables.get? t with
    | none =>
      rw [tableKind_of_dead hlive]
      exact .failed (.tableKind t) (.invalidHandle t.raw)
    | some table =>
      rw [tableKind_of_live hlive]
      exact .asked hlive
  | createRule e =>
    show Performed (s.disarm .createRule) (.createRule e) (s.createRule e).1 (s.createRule e).2
    rcases createRule_cases e s with ⟨cause, h⟩ | ⟨table, hlive, htaken, h⟩
    · rw [h]
      exact .failed (.createRule e) cause
    · rw [h]
      exact .stored (s := s.disarm .createRule) hlive htaken
  | deleteRule r =>
    show Performed (s.disarm .deleteRule) (.deleteRule r) (s.deleteRule r).1 (s.deleteRule r).2
    rcases deleteRule_cases r s with ⟨cause, h⟩ | ⟨e, hheld, h⟩
    · rw [h]
      exact .failed (.deleteRule r) cause
    · rw [h]
      exact .withdrawn (s := s.disarm .deleteRule) hheld
  | bind t object =>
    show Performed (s.disarm .bind) (.bind t object) (s.bind t object).1 (s.bind t object).2
    rcases bind_cases t object s with ⟨cause, h⟩ | ⟨table, hlive, hreal, h⟩
    · rw [h]
      exact .failed (.bind t object) cause
    · rw [h]
      exact .extended (s := s.disarm .bind) hlive hreal

/-- What a call can change beside the failure it spends. -/
inductive Change (s : Switch) : Switch → Prop
  | kept : Change s s
  | opened (k : Kind) : Change s (opened s k)
  | closed {t : TableHandle} {table : Table} (live : s.tables.get? t = some table)
      (unused : ∀ e ∈ s.rules.values, e.table ≠ t) : Change s (closed s t)
  | stored {e : Entry} {table : Table} (live : s.tables.get? e.table = some table)
      (taken : refusal? table.kind e = none) : Change s (stored s e)
  | withdrawn {r : RuleHandle} {e : Entry} (held : s.rules.get? r = some e) :
      Change s (withdrawn s r)
  | extended {t : TableHandle} {table : Table} {object : ObjectId}
      (live : s.tables.get? t = some table) (real : object ≠ 0) :
      Change s (extended s t [object])

theorem Performed.change {s s' : Switch} {c : Call} {answer : Answer c}
    (h : Performed s c answer s') : Change s s' := by
  cases h with
  | failed cause => exact .kept
  | asked hlive => exact .kept
  | opened k => exact .opened k
  | closed hlive hunused => exact .closed hlive hunused
  | stored hlive htaken => exact .stored hlive htaken
  | withdrawn hheld => exact .withdrawn hheld
  | extended hlive hreal => exact .extended hlive hreal

theorem change_answer (c : Call) (s : Switch) : Change (spent s c) (s.answer c).2 :=
  (performed_answer c s).change

theorem Change.armed {s s' : Switch} (h : Change s s') : s'.armed = s.armed := by
  cases h with
  | extended hlive hreal => exact extended_armed s _ _
  | _ => rfl

theorem spent_armed (s : Switch) (c : Call) (op : Operation) :
    (spent s c).armed op = if operation? c = some op then none else s.armed op := by
  unfold spent
  split
  next hnone => rw [hnone, if_neg nofun]
  next other hother => simp only [disarm_armed, hother, Option.some.injEq, eq_comm]

/-- The failures that are armed after a call are those before it, but for that of its own
operation. -/
theorem armed_answer (c : Call) (s : Switch) (op : Operation) :
    (s.answer c).2.armed op = if operation? c = some op then none else s.armed op := by
  rw [(change_answer c s).armed, spent_armed]

/-- No call arms a failure. -/
theorem Unarmed.answer {s : Switch} (h : Unarmed s) (c : Call) : Unarmed (s.answer c).2 := by
  intro op
  rw [armed_answer, h op, ite_self]

theorem Change.issued_le {s s' : Switch} (h : Change s s') : s.issued ≤ s'.issued := by
  cases h with
  | kept => exact Nat.le_refl s.issued
  | opened k => exact Nat.le_succ s.issued
  | closed hlive hunused => exact Nat.le_refl s.issued
  | stored hlive htaken => exact Nat.le_succ s.issued
  | withdrawn hheld => exact Nat.le_refl s.issued
  | extended hlive hreal => exact Nat.le_of_eq (extended_issued s _ _).symm

theorem issued_le_answer (c : Call) (s : Switch) : s.issued ≤ (s.answer c).2.issued := by
  have hspent : (spent s c).issued = s.issued := by
    unfold spent
    split <;> rfl
  rw [← hspent]
  exact (change_answer c s).issued_le

/-- An entry is taken when all its keys are of the kind and a redirect has a target. -/
theorem refusal?_eq_none_iff {k : Kind} {e : Entry} :
    refusal? k e = none ↔ (∀ key ∈ e.keys, key.field.kind = k) ∧
      (e.verdict.action = .redirect → e.verdict.target ≠ none) := by
  unfold refusal?
  cases hkey : e.keys.find? fun key => key.field.kind ≠ k with
  | some key =>
    have hother : key.field.kind ≠ k := by simpa using List.find?_some hkey
    have hmem : key ∈ e.keys := List.mem_of_find?_eq_some hkey
    simp only [reduceCtorEq, false_iff]
    intro h
    exact hother (h.1 key hmem)
  | none =>
    have hkinds : ∀ key ∈ e.keys, key.field.kind = k := by
      simpa using List.find?_eq_none.mp hkey
    simp only [ite_eq_right_iff, reduceCtorEq, imp_false, not_and]
    exact ⟨fun h => ⟨hkinds, h⟩, fun h => h.2⟩

end AccessList.Proofs.SwitchCalls
