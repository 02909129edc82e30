import AccessList.Proofs.Reachability
import AccessList.Proofs.Transcripts

/-!
What placing a rule on a switch leaves behind. A rule that is placed is the only new rule,
and its table is the only one that differs. A rule that is not placed leaves the rules as
they were, unless a binding failed and taking the rule away again failed too; the table
stays bound to the objects before the one that failed. The rule is taken away under a handle
that nothing else is stored under, which is where the numbers of the handles come in.
-/
namespace AccessList.Proofs.Placements

open Errors Fields Handles Registries Requests Rules Sessions SwitchCalls Switches Switch
  Transcripts Reachability

/-- A table has become bound to more objects, and no other table differs. -/
structure OnlyBound (s s' : Switch) (t : TableHandle) (objects : List ObjectId) : Prop where
  there : s'.tables.get? t = (s.tables.get? t).map (Table.extended · objects)
  elsewhere : ∀ u, u ≠ t → s'.tables.get? u = s.tables.get? u

theorem onlyBound_extended {s u : Switch} (h : u.tables = s.tables) (t : TableHandle)
    (objects : List ObjectId) : OnlyBound s (extended u t objects) t objects where
  there := by rw [get?_extended, if_pos rfl, h]
  elsewhere v hv := by rw [get?_extended, if_neg (Ne.symm hv), h]

/-- The failures that are still armed are those of operations that were not called. -/
def OnlySpent (s s' : Switch) (ops : List Operation) : Prop :=
  ∀ op, s'.armed op = if op ∈ ops then none else s.armed op

structure Placed (rule : Rule) (s s' : Switch) (r : RuleHandle) : Prop where
  live : s.tables.get? rule.table ≠ none
  fresh : s.rules.get? r = none
  rules : s'.rules = s.rules.insert r rule.toEntry
  tables : OnlyBound s s' rule.table rule.references
  issued : s'.issued = s.issued + 1
  armed : OnlySpent s s'
    (if rule.references = [] then [.createRule] else [.createRule, .bind])

/-- How a rule is not placed: the engine refuses it, or does not bind its table to one of
the objects. -/
inductive NotPlaced (rule : Rule) (s s' : Switch) (cause : EngineError) : Prop
  | refused
      (refused : (s.createRule rule.toEntry).1 = .error cause)
      (rules : s'.rules = s.rules)
      (tables : s'.tables = s.tables)
      (issued : s'.issued = s.issued)
      (armed : OnlySpent s s' [.createRule])
  | undone {r : RuleHandle} {before after : List ObjectId} {object : ObjectId} {u : Switch}
      (created : s.createRule rule.toEntry = (.ok r, u))
      (split : rule.references = before ++ object :: after)
      (bound : ((bindAll rule.table before).run engine u).1 = .ok ())
      (failed : (((bindAll rule.table before).run engine u).2.bind rule.table object).1 =
        .error cause)
      (fresh : s.rules.get? r = none)
      (rules : ¬ FailsNext s .deleteRule → s'.rules = s.rules)
      (left : FailsNext s .deleteRule → s'.rules = s.rules.insert r rule.toEntry)
      (tables : OnlyBound s s' rule.table before)
      (issued : s'.issued = s.issued + 1)
      (armed : OnlySpent s s' [.createRule, .bind, .deleteRule])

/-- Binding spends a failure only if there is something to bind. -/
def bindSpent (s : Switch) (objects : List ObjectId) : Switch :=
  if objects = [] then s else s.disarm .bind

@[simp] theorem bindSpent_issued (s : Switch) (objects : List ObjectId) :
    (bindSpent s objects).issued = s.issued := by
  unfold bindSpent
  split <;> rfl

@[simp] theorem bindSpent_tables (s : Switch) (objects : List ObjectId) :
    (bindSpent s objects).tables = s.tables := by
  unfold bindSpent
  split <;> rfl

@[simp] theorem bindSpent_rules (s : Switch) (objects : List ObjectId) :
    (bindSpent s objects).rules = s.rules := by
  unfold bindSpent
  split <;> rfl

theorem bindSpent_armed (s : Switch) (objects : List ObjectId) (op : Operation) :
    (bindSpent s objects).armed op =
      if op = .bind ∧ objects ≠ [] then none else s.armed op := by
  unfold bindSpent
  split
  next h => simp [h]
  next h => simp [h, disarm_armed]

theorem answer_bind (t : TableHandle) (object : ObjectId) (s : Switch) :
    engine.answer (.bind t object) s = s.bind t object := rfl

theorem run_bindAll_ok {s : Switch} {t : TableHandle} {table : Table}
    {objects : List ObjectId} (hlive : s.tables.get? t = some table)
    (hok : ((bindAll t objects).run engine s).1 = .ok ()) :
    ((bindAll t objects).run engine s).2 = extended (bindSpent s objects) t objects := by
  induction objects generalizing s table with
  | nil => rw [extended_nil]; rfl
  | cons object rest ih =>
    simp only [bindAll, Session.run_ask, answer_bind] at hok ⊢
    rcases bind_cases t object s with ⟨cause, hbind⟩ | ⟨-, -, hreal, hbind⟩
    · rw [hbind] at hok
      cases hok
    · rw [hbind] at hok ⊢
      have hnext : (extended (s.disarm .bind) t [object]).tables.get? t =
          some (Table.extended table [object]) := by
        rw [get?_extended, if_pos rfl, disarm_tables, hlive]
        rfl
      -- The first binding spends the failure, so the rest finds none.
      have hspent : bindSpent (extended (s.disarm .bind) t [object]) rest =
          extended (s.disarm .bind) t [object] := by
        unfold bindSpent
        split
        next => rfl
        next => rw [← extended_disarm, disarm_disarm]
      rw [ih hnext hok, hspent, extended_extended]
      rfl

theorem bindSpent_disarm (s : Switch) (objects : List ObjectId) :
    (bindSpent s objects).disarm .bind = s.disarm .bind := by
  unfold bindSpent
  split
  next => rfl
  next => exact disarm_disarm s .bind

/-- A binding that fails leaves the table bound to the objects before it. -/
theorem bind_failed_state {s s' : Switch} {t : TableHandle} {table : Table}
    {before : List ObjectId} {object : ObjectId} {cause : EngineError}
    (hlive : s.tables.get? t = some table)
    (hbefore : ((bindAll t before).run engine s).1 = .ok ())
    (hfailed : ((bindAll t before).run engine s).2.bind t object = (.error cause, s')) :
    s' = extended (s.disarm .bind) t before := by
  rw [run_bindAll_ok hlive hbefore] at hfailed
  rcases bind_cases t object (extended (bindSpent s before) t before) with
    ⟨other, hbind⟩ | ⟨-, -, -, hbind⟩
  · rw [hbind] at hfailed
    cases hfailed
    rw [← extended_disarm, bindSpent_disarm]
  · rw [hbind] at hfailed
    cases hfailed

/-- A live table is bound to a real object unless a failure strikes, and it strikes the first
binding. -/
theorem first_of_failed {s : Switch} {t : TableHandle} {table : Table}
    {before : List ObjectId} {object : ObjectId} {cause : EngineError}
    (hlive : s.tables.get? t = some table) (hreal : object ≠ 0)
    (hbefore : ((bindAll t before).run engine s).1 = .ok ())
    (hfailed : (((bindAll t before).run engine s).2.bind t object).1 = .error cause) :
    before = [] ∧ FailsNext s .bind := by
  have hnext : (extended (bindSpent s before) t before).tables.get? t =
      some (Table.extended table before) := by
    rw [get?_extended, if_pos rfl, bindSpent_tables, hlive]
    rfl
  have hstruck : FailsNext (extended (bindSpent s before) t before) .bind := by
    rw [run_bindAll_ok hlive hbefore, bind_of_live hnext hreal] at hfailed
    rw [failsNext_iff]
    cases hfault : fault (extended (bindSpent s before) t before) .bind with
    | error other => exact ⟨other, rfl⟩
    | ok _ =>
      rw [hfault] at hfailed
      cases hfailed
  obtain ⟨status, harmed, hstatus⟩ := hstruck
  rw [extended_armed, bindSpent_armed] at harmed
  by_cases hnil : before = []
  · rw [if_neg (fun h => h.2 hnil)] at harmed
    exact ⟨hnil, status, harmed, hstatus⟩
  · rw [if_pos ⟨rfl, hnil⟩] at harmed
    cases harmed

theorem failsNext_congr {s s' : Switch} {op : Operation} (h : s'.armed op = s.armed op) :
    FailsNext s' op ↔ FailsNext s op := by
  unfold FailsNext
  rw [h]

def Effected (rule : Rule) (s : Switch) : Except RequestError RuleHandle × Switch → Prop
  | (.ok r, s') => Placed rule s s' r
  | (.error e, s') => ∃ cause, e = .engine cause ∧ NotPlaced rule s s' cause

section Runs
variable {rule : Rule} {s u v : Switch} {r : RuleHandle} {cause : EngineError}

theorem answer_createRule (e : Entry) (s : Switch) :
    engine.answer (.createRule e) s = s.createRule e := rfl

theorem answer_deleteRule (r : RuleHandle) (s : Switch) :
    engine.answer (.deleteRule r) s = s.deleteRule r := rfl

theorem run_place_of_refused (hcreate : s.createRule rule.toEntry = (.error cause, u)) :
    (place rule).run engine s = (.error (.engine cause), u) := by
  simp only [place, Session.run_ask, answer_createRule, hcreate, Session.run_done]

theorem run_place_of_bound (hcreate : s.createRule rule.toEntry = (.ok r, u))
    (hbind : (bindAll rule.table rule.references).run engine u = (.ok (), v)) :
    (place rule).run engine s = (.ok r, v) := by
  simp only [place, Session.run_ask, answer_createRule, hcreate, Session.run_bind, hbind,
    Session.run_done]

theorem run_place_of_unbound (hcreate : s.createRule rule.toEntry = (.ok r, u))
    (hbind : (bindAll rule.table rule.references).run engine u = (.error cause, v)) :
    (place rule).run engine s = (.error (.engine cause), (v.deleteRule r).2) := by
  simp only [place, Session.run_ask, answer_createRule, hcreate, Session.run_bind, hbind,
    answer_deleteRule, Session.run_done]

end Runs

/-- A switch after a rule was stored on it, with the failure of that call spent. -/
def created (s : Switch) (e : Entry) : Switch := stored (s.disarm .createRule) e

theorem created_armed (s : Switch) (e : Entry) (op : Operation) :
    (created s e).armed op = if op = .createRule then none else s.armed op := rfl

theorem placed_of_bound {s : Switch} {rule : Rule}
    (hlive : s.tables.get? rule.table ≠ none)
    (hfresh : s.rules.get? (handle .rule (s.issued + 1)) = none) :
    Placed rule s
      (extended (bindSpent (created s rule.toEntry) rule.references) rule.table
        rule.references)
      (handle .rule (s.issued + 1)) where
  live := hlive
  fresh := hfresh
  rules := by rw [extended_rules, bindSpent_rules]; rfl
  tables := onlyBound_extended (by rw [bindSpent_tables]; rfl) _ _
  issued := by rw [extended_issued, bindSpent_issued]; rfl
  armed := by
    intro op
    rw [extended_armed, bindSpent_armed, created_armed]
    by_cases hnil : rule.references = []
    · simp [hnil]
    · cases op <;> simp [hnil]

/-- A rule taken away after its table was bound to some of the objects. -/
theorem deleteRule_of_created {s : Switch} {rule : Rule} (before : List ObjectId)
    (hfresh : s.rules.get? (handle .rule (s.issued + 1)) = none) :
    let v := extended ((created s rule.toEntry).disarm .bind) rule.table before
    let s' := (v.deleteRule (handle .rule (s.issued + 1))).2
    (¬ FailsNext s .deleteRule → s'.rules = s.rules) ∧
    (FailsNext s .deleteRule →
      s'.rules = s.rules.insert (handle .rule (s.issued + 1)) rule.toEntry) ∧
    OnlyBound s s' rule.table before ∧ s'.issued = s.issued + 1 ∧
    OnlySpent s s' [.createRule, .bind, .deleteRule] := by
  intro v s'
  have hrules : v.rules = s.rules.insert (handle .rule (s.issued + 1)) rule.toEntry :=
    extended_rules _ _ _
  have hissued : v.issued = s.issued + 1 := extended_issued _ _ _
  have htables : OnlyBound s v rule.table before :=
    onlyBound_extended (s := s) (u := (created s rule.toEntry).disarm .bind) rfl _ _
  have harmed : OnlySpent s (v.disarm .deleteRule) [.createRule, .bind, .deleteRule] := by
    intro op
    rw [disarm_armed, extended_armed, disarm_armed, created_armed]
    cases op <;> simp
  have hfails : FailsNext v .deleteRule ↔ FailsNext s .deleteRule := by
    apply failsNext_congr
    rw [extended_armed]
    rfl
  have hheld : v.rules.get? (handle .rule (s.issued + 1)) = some rule.toEntry := by
    rw [hrules, Registry.get?_insert, if_pos rfl]
  have hdelete := deleteRule_of_stored hheld
  cases hfault : fault v .deleteRule with
  | error cause =>
    have hs' : s' = v.disarm .deleteRule := by
      simp only [hfault] at hdelete
      exact congrArg Prod.snd hdelete
    have hstruck : FailsNext s .deleteRule :=
      hfails.mp ((failsNext_iff v .deleteRule).mpr ⟨cause, hfault⟩)
    rw [hs']
    exact ⟨fun hnot => absurd hstruck hnot, fun _ => hrules, ⟨htables.there, htables.elsewhere⟩,
      hissued, harmed⟩
  | ok _ =>
    have hs' : s' = withdrawn (v.disarm .deleteRule) (handle .rule (s.issued + 1)) := by
      simp only [hfault] at hdelete
      exact congrArg Prod.snd hdelete
    have hspared : ¬ FailsNext s .deleteRule := by
      rw [← hfails, failsNext_iff, hfault]
      rintro ⟨cause, h⟩
      cases h
    rw [hs']
    refine ⟨fun _ => ?_, fun hstruck => absurd hstruck hspared,
      ⟨htables.there, htables.elsewhere⟩, hissued, harmed⟩
    show v.rules.erase (handle .rule (s.issued + 1)) = s.rules
    rw [hrules, Registry.erase_insert rule.toEntry hfresh]

theorem effected_place {s : Switch}
    (hfresh : s.rules.get? (handle .rule (s.issued + 1)) = none) (rule : Rule) :
    Effected rule s ((place rule).run engine s) := by
  rcases createRule_cases rule.toEntry s with ⟨cause, hcreate⟩ | ⟨table, hlive, -, hcreate⟩
  · rw [run_place_of_refused hcreate]
    refine ⟨cause, rfl, .refused (by rw [hcreate]) rfl rfl rfl fun op => ?_⟩
    rw [disarm_armed]
    simp only [List.mem_singleton]
  · have hcreated : (created s rule.toEntry).tables.get? rule.table = some table := hlive
    rcases bindAll_cases engine rule.table rule.references (created s rule.toEntry) with
      ⟨hok, -⟩ | ⟨before, object, after, cause, v, hsplit, hbefore, hfailed, hrun, -⟩
    · have hstate := run_bindAll_ok hcreated hok
      rw [run_place_of_bound hcreate (Prod.ext hok hstate)]
      exact placed_of_bound (by rw [hlive]; exact Option.some_ne_none table) hfresh
    · rw [run_place_of_unbound hcreate hrun]
      obtain rfl := bind_failed_state hcreated hbefore hfailed
      obtain ⟨hrules, hleft, htables, hissued, harmed⟩ := deleteRule_of_created before hfresh
      exact ⟨cause, rfl, .undone hcreate hsplit hbefore (congrArg Prod.fst hfailed) hfresh
        hrules hleft htables hissued harmed⟩

/-- What placing any rule does to a switch that has handles left. -/
theorem place_effect {s : Switch} (reach : Reachable s) (few : s.issued < 2 ^ 26 - 1)
    (rule : Rule) : Effected rule s ((place rule).run engine s) :=
  effected_place (reach.numbered.rules.get?_next (by omega)) rule

/-- A switch with one table, on which neither a binding nor taking a rule away will succeed. -/
def twiceArmed : Switch :=
  ((Switch.empty.answer (.createTable .ipv4)).2.arm .bind .hwFailure).arm .deleteRule .hwFailure

/-- A rule without keys that binds the table of that switch to two objects. -/
def twiceBinding : Rule where
  table := handle .table 1
  kind := .ipv4
  priority := 7
  keys := []
  verdict := .nop
  references := [5, 6]

/-- The rule stays although it was not placed. -/
theorem place_effect_twiceArmed :
    Reachable twiceArmed ∧ twiceArmed.issued < 2 ^ 26 - 1 ∧
    Effected twiceBinding twiceArmed ((place twiceBinding).run engine twiceArmed) ∧
    ((place twiceBinding).run engine twiceArmed).2.rules.entries =
      [(handle .rule 2, twiceBinding.toEntry)] := by
  have hreach : Reachable twiceArmed :=
    .arm .deleteRule .hwFailure (.arm .bind .hwFailure (.call (.createTable .ipv4) .refl))
  have hfew : twiceArmed.issued < 2 ^ 26 - 1 := by decide
  exact ⟨hreach, hfew, place_effect hreach hfew twiceBinding, by decide⟩

end AccessList.Proofs.Placements
