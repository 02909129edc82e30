import AccessList.Proofs.DryRuns
import AccessList.Proofs.ObjectLives
import AccessList.Proofs.PlacementSteps

/-!
Rules that are placed at the same time, by a client each, on a switch on which no failure is
armed. What the switch answers to a client depends on the kinds of the tables, which placing
rules does not change, and on handles, which no two clients share. So every rule is placed or
not as it would be alone, and a client that takes its rule away takes away no other. What a
table is bound to in the end is a merge of what the clients bound it to.
-/
namespace AccessList.Proofs.ConcurrentPlacements

open DryRuns Errors Fields Handles Histories Interleavings ObjectLives PlacementSteps Placements
  Reachability Registries Requests Rules Sessions SwitchCalls Switches Switch Transcripts

/-- How something has ended, without its result. -/
def ending {ε α : Type} (x : Except ε α) : Except ε Unit := x.map fun _ => ()

/-- Whether a table takes an entry, given its kind if there is such a table. -/
def admission (kind? : Option Kind) (e : Entry) : Except EngineError Unit :=
  match kind? with
  | none => .error (.invalidHandle e.table.raw)
  | some k =>
    match refusal? k e with
    | some reason => .error (.invalidParameter reason)
    | none => .ok ()

/-- How placing a rule ends where no failure is armed. -/
def foreseen (kind? : Option Kind) (rule : Rule) : Except RequestError Unit :=
  match admission kind? rule.toEntry with
  | .error cause => .error (.engine cause)
  | .ok () => if 0 ∈ rule.references then .error (.engine (.invalidHandle 0)) else .ok ()

section Alone
variable {s : Switch}

theorem ending_createRule (h : Unarmed s) (e : Entry) :
    ending (s.createRule e).1 = admission ((s.tables.get? e.table).map Table.kind) e := by
  have hspared : fault s .createRule = .ok () := fault_of_spared (h.spared .createRule)
  cases hlive : s.tables.get? e.table with
  | none =>
    rw [createRule_of_dead hlive, hspared]
    rfl
  | some table =>
    cases hrefusal : refusal? table.kind e with
    | some reason =>
      unfold createRule
      rw [strike_eq, hspared]
      simp only [disarm_tables, hlive, hrefusal, Option.map_some, admission]
      rfl
    | none =>
      rw [createRule_of_live hlive hrefusal, hspared]
      simp only [Option.map_some, admission, hrefusal]
      rfl

theorem bind_of_unarmed (h : Unarmed s) {t : TableHandle} {table : Table}
    (hlive : s.tables.get? t = some table) (object : ObjectId) :
    s.bind t object =
      if object = 0 then (.error (.invalidHandle 0), s) else (.ok (), extended s t [object]) := by
  have hspared : fault s .bind = .ok () := fault_of_spared (h.spared .bind)
  by_cases hnull : object = 0
  · unfold Switch.bind
    rw [strike_eq, hspared, disarm_of_unarmed (h .bind)]
    simp only [hnull, if_true]
  · rw [bind_of_live hlive hnull, hspared, disarm_of_unarmed (h .bind), if_neg hnull]

theorem run_bindAll_of_unarmed (h : Unarmed s) {t : TableHandle} {table : Table}
    (hlive : s.tables.get? t = some table) (objects : List ObjectId) :
    ((bindAll t objects).run engine s).1 =
      if 0 ∈ objects then .error (.invalidHandle 0) else .ok () := by
  induction objects generalizing s table with
  | nil => rfl
  | cons object rest ih =>
    simp only [bindAll, Session.run_ask, answer_bind]
    rw [bind_of_unarmed h hlive]
    by_cases hnull : object = 0
    · rw [if_pos hnull, hnull, if_pos List.mem_cons_self]
      rfl
    · have hnext : (extended s t [object]).tables.get? t =
          some (Table.extended table [object]) := by
        rw [get?_extended, if_pos rfl, hlive]
        rfl
      have harmed : Unarmed (extended s t [object]) := by
        intro op
        rw [extended_armed]
        exact h op
      have hmem : (0 ∈ object :: rest) ↔ 0 ∈ rest := by simp [Ne.symm hnull]
      rw [if_neg hnull]
      simp only [hmem]
      exact ih harmed hnext

/-- A rule that is stored is placed as far as its objects can be bound. -/
theorem ending_place_of_created {rule : Rule} {r : RuleHandle} {u : Switch}
    (hcreate : s.createRule rule.toEntry = (.ok r, u)) :
    ending ((place rule).run engine s).1 =
      passOn ((bindAll rule.table rule.references).run engine u).1 := by
  obtain ⟨answer, v, hrun⟩ : ∃ answer v, (bindAll rule.table rule.references).run engine u =
      (answer, v) := ⟨_, _, rfl⟩
  rw [hrun]
  cases answer with
  | error cause =>
    rw [run_place_of_unbound hcreate hrun]
    rfl
  | ok _ =>
    rw [run_place_of_bound hcreate hrun]
    rfl

theorem ending_place (h : Unarmed s) (rule : Rule) :
    ending ((place rule).run engine s).1 =
      foreseen ((s.tables.get? rule.table).map Table.kind) rule := by
  unfold foreseen
  rw [← ending_createRule h rule.toEntry]
  rcases createRule_cases rule.toEntry s with ⟨cause, hcreate⟩ | ⟨table, hlive, -, hcreate⟩
  · rw [run_place_of_refused hcreate, hcreate]
    rfl
  · have hcreated : (created s rule.toEntry).tables.get? rule.table = some table := hlive
    have harmed : Unarmed (created s rule.toEntry) := by
      intro op
      rw [created_armed, h op, ite_self]
    have hbound := run_bindAll_of_unarmed harmed hcreated rule.references
    rw [ending_place_of_created hcreate, hcreate]
    refine (congrArg passOn hbound).trans ?_
    exact apply_ite passOn (0 ∈ rule.references) _ _

end Alone

variable {ι : Type} [DecidableEq ι]

/-- Clients that place a rule each, in the turns of a schedule. -/
def placing (rules : ι → Rule) (s : Switch) (schedule : List ι) :
    Progress ι (Except RequestError RuleHandle) Switch :=
  interleave engine (fun i => place (rules i)) s schedule

/-- The run of the switch while the clients have their turns. -/
theorem leads_placing (rules : ι → Rule) (s : Switch) (schedule : List ι) :
    Leads s ((placing rules s schedule).log.map Prod.snd) (placing rules s schedule).state := by
  apply interleave_induction engine (fun i => place (rules i)) s
    (P := fun u => Leads s (u.log.map Prod.snd) u.state)
  · exact .refl
  · intro schedule i c next hask ih
    simp only [answered, List.map_append]
    exact ih.call c

theorem unarmed_placing {s : Switch} (h : Unarmed s) (rules : ι → Rule) (schedule : List ι) :
    Unarmed (placing rules s schedule).state := by
  apply interleave_induction engine (fun i => place (rules i)) s (P := fun u => Unarmed u.state)
  · exact h
  · intro schedule i c next hask ih
    exact ih.answer c

/-- More turns issue more numbers. -/
theorem issued_le_placing (rules : ι → Rule) (s : Switch) (earlier later : List ι) :
    (placing rules s earlier).state.issued ≤ (placing rules s (earlier ++ later)).state.issued := by
  induction later using List.reverseRecOn with
  | nil => rw [List.append_nil]
  | append_singleton later i ih =>
    rw [← List.append_assoc]
    apply Nat.le_trans ih
    rcases interleave_turn engine (fun i => place (rules i)) s (earlier ++ later) i with
      ⟨-, hsame⟩ | ⟨c, next, -, hturn⟩
    · exact Nat.le_of_eq (congrArg (fun u => u.state.issued) hsame.symm)
    · have hissued := congrArg (fun u => u.state.issued) hturn
      exact Nat.le_trans (issued_le_answer c _) (Nat.le_of_eq hissued.symm)

section Family
variable {rules : ι → Rule} {s : Switch} {schedule : List ι}

/-- Every call was made by a client where its own calls had brought it. -/
theorem exists_asks {before after : List (ι × Event)} {i : ι} {ev : Event}
    (h : (placing rules s schedule).log = before ++ (i, ev) :: after) :
    ∃ earlier later, schedule = earlier ++ later ∧ (placing rules s earlier).log = before ∧
      Asks (rules i) (own i before) ev.call ∧
      ev.answer = ((placing rules s earlier).state.answer ev.call).1 := by
  obtain ⟨earlier, later, hschedule, hturn⟩ := exists_turn engine _ s h
  obtain ⟨next, hask⟩ := hturn.asks
  have hfollows := follows_own engine (fun i => place (rules i)) s earlier i
  have hasks := (stage_of_follows hfollows).asks hask
  rw [hturn.log] at hasks
  exact ⟨earlier, later, hschedule, hturn.log, hasks, hturn.answer⟩

theorem asks_of_mem {i : ι} {ev : Event} (h : (i, ev) ∈ (placing rules s schedule).log) :
    ∃ events, Asks (rules i) events ev.call := by
  obtain ⟨before, after, hlog⟩ := List.append_of_mem h
  obtain ⟨-, -, -, -, hasks, -⟩ := exists_asks hlog
  exact ⟨own i before, hasks⟩

/-- What the clients do to a table is to bind it to more objects. -/
theorem tables_placing (rules : ι → Rule) (s : Switch) (schedule : List ι) (t : TableHandle) :
    (placing rules s schedule).state.tables.get? t =
      (s.tables.get? t).map (Table.extended ·
        (((placing rules s schedule).log.map Prod.snd).filterMap (boundObject? t))) := by
  have hidle : ∀ ev ∈ (placing rules s schedule).log.map Prod.snd,
      (tableLife t).made? ev = none ∧ (tableLife t).ended ev = false := by
    intro ev hev
    obtain ⟨i, hmem⟩ := mem_map_snd.mp hev
    obtain ⟨events, hasks⟩ := asks_of_mem hmem
    obtain ⟨c, answer⟩ := ev
    change Asks (rules i) events c at hasks
    cases hasks <;> exact ⟨rfl, rfl⟩
  rw [(lived_of_leads (leads_placing rules s schedule)).1 t,
    (tableLife t).lived_of_kept hidle]
  congr 1
  funext table
  exact grown_table t _ table

theorem sameKinds_placing (rules : ι → Rule) (s : Switch) (schedule : List ι) :
    SameKinds s (placing rules s schedule).state := by
  intro t
  rw [tables_placing]
  cases s.tables.get? t <;> rfl

/-- Whether a rule is stored does not depend on the other clients. -/
theorem admission_of_mem (unarmed : Unarmed s) {i : ι} {e : Entry}
    {answer : Answer (.createRule e)}
    (h : (i, ⟨.createRule e, answer⟩) ∈ (placing rules s schedule).log) :
    ending answer =
      admission ((s.tables.get? (rules i).table).map Table.kind) (rules i).toEntry := by
  obtain ⟨before, after, hlog⟩ := List.append_of_mem h
  obtain ⟨earlier, later, -, -, hasks, hanswer⟩ := exists_asks hlog
  change Asks (rules i) (own i before) (.createRule e) at hasks
  generalize own i before = events at hasks
  cases hasks with
  | storing =>
    have hkind := sameKinds_placing rules s earlier (rules i).table
    have hending := ending_createRule (unarmed_placing unarmed rules earlier) (rules i).toEntry
    change answer = ((placing rules s earlier).state.createRule (rules i).toEntry).1 at hanswer
    rw [hanswer, hending, ← hkind]

theorem live_of_admission {kind? : Option Kind} {e : Entry} (h : admission kind? e = .ok ()) :
    kind? ≠ none := by
  rintro rfl
  cases h

/-- A binding fails for the null object only. -/
theorem bind_answer_of_mem (unarmed : Unarmed s) {i : ι} {t : TableHandle} {object : ObjectId}
    {answer : Answer (.bind t object)}
    (h : (i, ⟨.bind t object, answer⟩) ∈ (placing rules s schedule).log) :
    answer = if object = 0 then .error (.invalidHandle 0) else .ok () := by
  obtain ⟨before, after, hlog⟩ := List.append_of_mem h
  obtain ⟨earlier, later, -, hbefore, hasks, hanswer⟩ := exists_asks hlog
  change Asks (rules i) (own i before) (.bind t object) at hasks
  generalize hown : own i before = events at hasks
  cases hasks with
  | binding r split =>
    -- The rule was stored, so the table is live.
    have hmade : (i, made (rules i) r) ∈ (placing rules s earlier).log := by
      rw [hbefore, ← mem_own, hown]
      exact List.mem_cons_self
    have hlive := live_of_admission (admission_of_mem unarmed hmade).symm
    rw [← sameKinds_placing rules s earlier, Ne, Option.map_eq_none_iff] at hlive
    obtain ⟨table, htable⟩ := Option.ne_none_iff_exists'.mp hlive
    change answer = ((placing rules s earlier).state.bind (rules i).table object).1 at hanswer
    rw [hanswer, bind_of_unarmed (unarmed_placing unarmed rules earlier) htable]
    split <;> rfl

/-- No two clients store their rules under the same handle. -/
theorem made_injective (few : (placing rules s schedule).state.issued < 2 ^ 26) {i j : ι}
    {r : RuleHandle} (hi : (i, made (rules i) r) ∈ (placing rules s schedule).log)
    (hj : (j, made (rules j) r) ∈ (placing rules s schedule).log) : i = j := by
  have hnodup := nodup_returned (leads_placing rules s schedule) (Nat.le_of_lt few)
  rw [List.filterMap_map] at hnodup
  have hsame : (i, made (rules i) r) = (j, made (rules j) r) :=
    eq_of_nodup_filterMap (b := r.raw) hnodup hi hj rfl rfl
  exact congrArg Prod.fst hsame

/-- No rule is stored under a handle that was in use. -/
theorem get?_of_made (reach : Reachable s)
    (few : (placing rules s schedule).state.issued < 2 ^ 26) {i : ι} {r : RuleHandle}
    (h : (i, made (rules i) r) ∈ (placing rules s schedule).log) : s.rules.get? r = none := by
  obtain ⟨os, hissued, hreturned⟩ := (leads_placing rules s schedule).returned
  have hmem : r.raw ∈ handlesFrom (s.issued + 1) os := by
    rw [← hreturned]
    exact List.mem_filterMap.mpr ⟨made (rules i) r, List.mem_map_of_mem h, rfl⟩
  obtain ⟨o, n, hle, hlt, hraw⟩ := mem_handlesFrom hmem
  by_contra hlive
  obtain ⟨m, hpos, hm, hr⟩ := reach.numbered.rules r hlive
  rw [hr] at hraw
  have hnumber : m = n := eq_of_raw_eq (by omega) (by omega) hpos (by omega) hraw
  omega

/-- A client takes away the rule that it stored. -/
theorem made_of_deleted {before after : List (ι × Event)} {i : ι} {r : RuleHandle}
    {answer : Answer (.deleteRule r)}
    (h : (placing rules s schedule).log = before ++ (i, ⟨.deleteRule r, answer⟩) :: after) :
    (i, made (rules i) r) ∈ before ∧ ∀ undo, (i, ⟨.deleteRule r, undo⟩) ∉ before := by
  obtain ⟨earlier, later, -, hbefore, hasks, -⟩ := exists_asks h
  change Asks (rules i) (own i before) (.deleteRule r) at hasks
  generalize hown : own i before = events at hasks
  simp only [← mem_own, hown]
  cases hasks with
  | undoing r split cause =>
    refine ⟨List.mem_cons_self, fun undo hundo => ?_⟩
    simp [made, bound] at hundo

theorem made_of_mem_deletion {i : ι} {r : RuleHandle}
    (h : (i, deletion r) ∈ (placing rules s schedule).log) :
    (i, made (rules i) r) ∈ (placing rules s schedule).log := by
  obtain ⟨before, after, hlog⟩ := List.append_of_mem h
  rw [hlog]
  exact List.mem_append_left _ (made_of_deleted hlog).1

section Handles
variable (few : (placing rules s schedule).state.issued < 2 ^ 26)
include few

theorem madeOnce_rule (r : RuleHandle) :
    (ruleLife r).MadeOnce ((placing rules s schedule).log.map Prod.snd) :=
  madeOnce_of_nodup (fun _ => returned_of_made_rule)
    (nodup_returned (leads_placing rules s schedule) (Nat.le_of_lt few))

/-- What becomes of a rule is what follows its making. -/
theorem rule_of_made {before after : List (ι × Event)} {i : ι} {r : RuleHandle}
    (h : (placing rules s schedule).log = before ++ (i, made (rules i) r) :: after) :
    (placing rules s schedule).state.rules.get? r =
      if (after.map Prod.snd).any (ruleLife r).ended then none else some (rules i).toEntry := by
  have hpast : (placing rules s schedule).log.map Prod.snd =
      before.map Prod.snd ++ made (rules i) r :: after.map Prod.snd := by
    rw [h, List.map_append, List.map_cons]
  rw [(lived_of_leads (leads_placing rules s schedule)).2 r,
    (ruleLife r).lived_of_made (madeOnce_rule few r) hpast (made_rule_iff.mpr rfl), grown_rule]

theorem rule_of_undone {i : ι} {r : RuleHandle}
    (h : (i, deletion r) ∈ (placing rules s schedule).log) :
    (placing rules s schedule).state.rules.get? r = none := by
  obtain ⟨before, after, hlog⟩ := List.append_of_mem h
  obtain ⟨first, middle, hbefore⟩ := List.append_of_mem (made_of_deleted hlog).1
  rw [hbefore, List.append_assoc, List.cons_append] at hlog
  have hended : ((middle ++ (i, deletion r) :: after).map Prod.snd).any (ruleLife r).ended := by
    rw [List.any_eq_true]
    exact ⟨deletion r, by simp, ended_rule_iff.mpr rfl⟩
  rw [rule_of_made few hlog, hended]
  rfl

theorem rule_of_kept {i : ι} {r : RuleHandle}
    (hmade : (i, made (rules i) r) ∈ (placing rules s schedule).log)
    (hkept : (i, deletion r) ∉ (placing rules s schedule).log) :
    (placing rules s schedule).state.rules.get? r = some (rules i).toEntry := by
  obtain ⟨before, after, hlog⟩ := List.append_of_mem hmade
  have hended : ¬ ((after.map Prod.snd).any (ruleLife r).ended) := by
    rw [List.any_eq_true]
    rintro ⟨ev, hev, hend⟩
    obtain rfl := ended_rule_iff.mp hend
    obtain ⟨j, hmem⟩ := mem_map_snd.mp hev
    have hdeleted : (j, deletion r) ∈ (placing rules s schedule).log := by
      rw [hlog]
      exact List.mem_append_right _ (List.mem_cons_of_mem _ hmem)
    -- Only the client that made the rule takes it away.
    obtain rfl := made_injective few (made_of_mem_deletion hdeleted) hmade
    exact hkept hdeleted
  rw [rule_of_made few hlog, if_neg hended]

end Handles

/-- What no client made is as it was. -/
theorem rule_of_foreign {r : RuleHandle}
    (h : ∀ i, (i, made (rules i) r) ∉ (placing rules s schedule).log) :
    (placing rules s schedule).state.rules.get? r = s.rules.get? r := by
  have hidle : ∀ ev ∈ (placing rules s schedule).log.map Prod.snd,
      (ruleLife r).made? ev = none ∧ (ruleLife r).ended ev = false := by
    intro ev hev
    obtain ⟨i, hmem⟩ := mem_map_snd.mp hev
    constructor
    · by_contra hsome
      obtain ⟨e, he⟩ := Option.ne_none_iff_exists'.mp hsome
      obtain rfl := made_rule_iff.mp he
      obtain ⟨events, hasks⟩ := asks_of_mem hmem
      change Asks (rules i) events (.createRule e) at hasks
      cases hasks with
      | storing => exact h i hmem
    · rw [Bool.eq_false_iff, Ne, ended_rule_iff]
      rintro rfl
      exact h i (made_of_mem_deletion hmem)
  have hgrown : (ruleLife r).grown ((placing rules s schedule).log.map Prod.snd) = id :=
    funext fun e => grown_rule r _ e
  rw [(lived_of_leads (leads_placing rules s schedule)).2 r, (ruleLife r).lived_of_kept hidle,
    hgrown, Option.map_id_fun, id]

/-- The rules at any time are those of the start, and those that clients have made and not
taken away. -/
theorem get?_rule_placing_iff (reach : Reachable s)
    (few : (placing rules s schedule).state.issued < 2 ^ 26) {r : RuleHandle} {e : Entry} :
    (placing rules s schedule).state.rules.get? r = some e ↔
      s.rules.get? r = some e ∨
        ∃ i, ((i, made (rules i) r) ∈ (placing rules s schedule).log ∧
          (i, deletion r) ∉ (placing rules s schedule).log) ∧ e = (rules i).toEntry := by
  constructor
  · intro hget
    by_cases hforeign : ∀ i, (i, made (rules i) r) ∉ (placing rules s schedule).log
    · rw [rule_of_foreign hforeign] at hget
      exact Or.inl hget
    · push Not at hforeign
      obtain ⟨i, hmade⟩ := hforeign
      have hkept : (i, deletion r) ∉ (placing rules s schedule).log := by
        intro hundone
        rw [rule_of_undone few hundone] at hget
        cases hget
      rw [rule_of_kept few hmade hkept] at hget
      exact Or.inr ⟨i, ⟨hmade, hkept⟩, (Option.some.inj hget).symm⟩
  · rintro (hold | ⟨i, ⟨hmade, hkept⟩, rfl⟩)
    · have hforeign : ∀ i, (i, made (rules i) r) ∉ (placing rules s schedule).log := by
        intro i hmade
        rw [get?_of_made reach few hmade] at hold
        cases hold
      rw [rule_of_foreign hforeign]
      exact hold
    · exact rule_of_kept few hmade hkept

/-- A rule that a client takes away is there until then. -/
theorem delete_answer_of_mem (unarmed : Unarmed s)
    (few : (placing rules s schedule).state.issued < 2 ^ 26) {i : ι} {r : RuleHandle}
    {answer : Answer (.deleteRule r)}
    (h : (i, ⟨.deleteRule r, answer⟩) ∈ (placing rules s schedule).log) : answer = .ok () := by
  obtain ⟨before, after, hlog⟩ := List.append_of_mem h
  obtain ⟨hmade, hkept⟩ := made_of_deleted hlog
  obtain ⟨earlier, later, rfl, rfl, -, hanswer⟩ := exists_asks hlog
  have hle := issued_le_placing rules s earlier later
  have hheld := rule_of_kept (by omega) hmade (hkept (.ok ()))
  have hspared : fault (placing rules s earlier).state .deleteRule = .ok () :=
    fault_of_spared ((unarmed_placing unarmed rules earlier).spared .deleteRule)
  change answer = ((placing rules s earlier).state.deleteRule r).1 at hanswer
  rw [hanswer, deleteRule_of_stored hheld, hspared]

end Family

/-- How a client that is done has fared: what it has seen, and with what result it ended. -/
inductive Settled (rule : Rule) (kind? : Option Kind) :
    List Event → Except RequestError RuleHandle → Prop
  | refused {cause : EngineError} (refused : admission kind? rule.toEntry = .error cause) :
      Settled rule kind? [⟨.createRule rule.toEntry, .error cause⟩] (.error (.engine cause))
  | placed (r : RuleHandle) (admitted : admission kind? rule.toEntry = .ok ())
      (real : 0 ∉ rule.references) :
      Settled rule kind? (made rule r :: rule.references.map (bound rule.table)) (.ok r)
  | undone (r : RuleHandle) (admitted : admission kind? rule.toEntry = .ok ())
      {before after : List ObjectId} (split : rule.references = before ++ 0 :: after)
      (real : 0 ∉ before) :
      Settled rule kind?
        (made rule r :: before.map (bound rule.table) ++
          [⟨.bind rule.table 0, .error (.invalidHandle 0)⟩, deletion r])
        (.error (.engine (.invalidHandle 0)))

/-- A client that is done has fared as the kind of its table and its references say. -/
theorem settled_placing {rules : ι → Rule} {s : Switch} {schedule : List ι}
    (unarmed : Unarmed s) (few : (placing rules s schedule).state.issued < 2 ^ 26) {i : ι}
    {a : Except RequestError RuleHandle}
    (hdone : (placing rules s schedule).sessions i = .done a) :
    Settled (rules i) ((s.tables.get? (rules i).table).map Table.kind)
      (own i (placing rules s schedule).log) a := by
  have hplacement := (stage_of_follows
    (follows_own engine (fun i => place (rules i)) s schedule i)).placement hdone
  have hseen : ∀ ev ∈ own i (placing rules s schedule).log,
      (i, ev) ∈ (placing rules s schedule).log := fun ev => mem_own.mp
  change Placement (rules i) (own i (placing rules s schedule).log) a at hplacement
  generalize own i (placing rules s schedule).log = events at hplacement hseen
  -- Objects that were bound are not null.
  have hreal (objects : List ObjectId)
      (hbound : ∀ object ∈ objects, bound (rules i).table object ∈ events) : 0 ∉ objects := by
    intro hnull
    have hanswer := bind_answer_of_mem unarmed (hseen _ (hbound 0 hnull))
    cases hanswer
  cases hplacement with
  | refused cause =>
    exact .refused (admission_of_mem unarmed (hseen _ List.mem_cons_self)).symm
  | placed r =>
    refine .placed r (admission_of_mem unarmed (hseen _ List.mem_cons_self)).symm ?_
    apply hreal
    intro object hobject
    exact List.mem_cons_of_mem _ (List.mem_map_of_mem hobject)
  | @undone r before after object split cause undo =>
    have hadmitted := (admission_of_mem unarmed (hseen _ List.mem_cons_self)).symm
    have hbefore : 0 ∉ before := by
      apply hreal
      intro object hobject
      exact List.mem_append_left _ (List.mem_cons_of_mem _ (List.mem_map_of_mem hobject))
    have hfailed := bind_answer_of_mem unarmed
      (hseen ⟨.bind (rules i).table object, .error cause⟩ (by simp))
    have hundo : undo = .ok () :=
      delete_answer_of_mem unarmed few (hseen ⟨.deleteRule r, undo⟩ (by simp))
    have hnull : object = 0 := by
      by_contra hobject
      rw [if_neg hobject] at hfailed
      cases hfailed
    rw [if_pos hnull] at hfailed
    cases hfailed
    subst hnull hundo
    exact .undone r hadmitted split hbefore

/-- What a client has bound a table to in the end: if the rule was stored in the table, all
its references before the first that is null. -/
def share (rule : Rule) (t : TableHandle) (events : List Event) : List ObjectId :=
  if rule.table = t ∧ events.any (creates .rule) then rule.references.takeWhile (· ≠ 0) else []

section Settled
variable {rule : Rule} {kind? : Option Kind} {events : List Event}
  {a : Except RequestError RuleHandle}

theorem Settled.ending (h : Settled rule kind? events a) :
    ConcurrentPlacements.ending a = foreseen kind? rule := by
  cases h with
  | refused hrefused =>
    simp only [foreseen, hrefused]
    rfl
  | placed r hadmitted hreal =>
    simp only [foreseen, hadmitted, if_neg hreal]
    rfl
  | undone r hadmitted split hreal =>
    have hnull : 0 ∈ rule.references := by
      rw [split]
      exact List.mem_append_right _ List.mem_cons_self
    simp only [foreseen, hadmitted, if_pos hnull]
    rfl

/-- A client ends with the handle of its rule if it stored the rule and has left it there. -/
theorem Settled.ok_iff (h : Settled rule kind? events a) {r : RuleHandle} :
    a = .ok r ↔ made rule r ∈ events ∧ deletion r ∉ events := by
  cases h with
  | refused hrefused => simp [made]
  | placed r' hadmitted hreal => simp [made, bound, deletion, eq_comm]
  | undone r' hadmitted split hreal => simp [made, bound, deletion]

theorem filterMap_boundObject (rule : Rule) (t : TableHandle) (objects : List ObjectId) :
    (objects.map (bound rule.table)).filterMap (boundObject? t) =
      if rule.table = t then objects else [] := by
  rw [List.filterMap_map]
  by_cases ht : rule.table = t
  · rw [if_pos ht]
    have hsome : boundObject? t ∘ bound rule.table = some :=
      funext fun object => if_pos ht
    rw [hsome, List.filterMap_some]
  · rw [if_neg ht, List.filterMap_eq_nil_iff]
    exact fun object _ => if_neg ht

theorem share_of_made (rule : Rule) (t : TableHandle) (r : RuleHandle) (rest : List Event) :
    share rule t (made rule r :: rest) =
      if rule.table = t then rule.references.takeWhile (· ≠ 0) else [] := by
  simp [share, made, creates]

theorem takeWhile_append_of_real {before : List ObjectId} (h : 0 ∉ before)
    (after : List ObjectId) :
    (before ++ after).takeWhile (· ≠ 0) = before ++ after.takeWhile (· ≠ 0) := by
  apply List.takeWhile_append_of_pos
  intro object hobject
  exact decide_eq_true fun hnull => h (hnull ▸ hobject)

theorem Settled.bound (h : Settled rule kind? events a) (t : TableHandle) :
    events.filterMap (boundObject? t) = share rule t events := by
  have hmade (r : RuleHandle) : boundObject? t (made rule r) = none := rfl
  cases h with
  | refused hrefused => simp [share, creates, boundObject?]
  | placed r hadmitted hreal =>
    have hall := takeWhile_append_of_real hreal []
    rw [List.takeWhile_nil, List.append_nil] at hall
    rw [share_of_made, hall, List.filterMap_cons_none (hmade r), filterMap_boundObject]
  | @undone r hadmitted before after split hreal =>
    have hfirst : rule.references.takeWhile (· ≠ 0) = before := by
      rw [split, takeWhile_append_of_real hreal, List.takeWhile_cons_of_neg (by simp),
        List.append_nil]
    have hlast : [⟨.bind rule.table 0, .error (.invalidHandle 0)⟩, deletion r].filterMap
        (boundObject? t) = [] := rfl
    rw [List.cons_append, share_of_made, hfirst, List.filterMap_cons_none (hmade r),
      List.filterMap_append, filterMap_boundObject, hlast, List.append_nil]

end Settled

/-- The rules that are placed are those that were made and not taken away. -/
theorem placed_iff {rules : ι → Rule} {s : Switch} {schedule : List ι} (unarmed : Unarmed s)
    (few : (placing rules s schedule).state.issued < 2 ^ 26) {i : ι} {r : RuleHandle}
    (hdone : ∃ a, (placing rules s schedule).sessions i = .done a) :
    (placing rules s schedule).sessions i = .done (.ok r) ↔
      (i, made (rules i) r) ∈ (placing rules s schedule).log ∧
        (i, deletion r) ∉ (placing rules s schedule).log := by
  obtain ⟨a, ha⟩ := hdone
  rw [← mem_own, ← mem_own, ← (settled_placing unarmed few ha).ok_iff, ha, Session.done.injEq]

/-- Clients that have placed their rules side by side. Each has ended as it would have alone,
the rules that were placed are under new handles of their own, and beside them and what the
clients have bound the tables to nothing of the switch differs. -/
structure SideBySide (rules : ι → Rule) (s : Switch)
    (u : Progress ι (Except RequestError RuleHandle) Switch) : Prop where
  outcome : ∀ i a, u.sessions i = .done a →
    ending a = ending ((place (rules i)).run engine s).1
  distinct : ∀ i j r, u.sessions i = .done (.ok r) → u.sessions j = .done (.ok r) → i = j
  fresh : ∀ i r, u.sessions i = .done (.ok r) → s.rules.get? r = none
  rule : ∀ r e, u.state.rules.get? r = some e ↔
    s.rules.get? r = some e ∨ ∃ i, u.sessions i = .done (.ok r) ∧ e = (rules i).toEntry
  references : ∀ t, ∃ objects, Merges (fun i => share (rules i) t (own i u.log)) objects ∧
    u.state.tables.get? t = (s.tables.get? t).map (Table.extended · objects)

/-- In whatever order clients have their turns, each is done after enough of them, and when
all are done their rules are placed as they would have been alone. -/
theorem placements_settle {s : Switch} (reach : Reachable s) (unarmed : Unarmed s)
    (rules : ι → Rule) (schedule : List ι)
    (few : (placing rules s schedule).state.issued < 2 ^ 26) :
    (∀ i, (rules i).references.length + 2 ≤ schedule.count i →
      ∃ a, (placing rules s schedule).sessions i = .done a) ∧
    ((∀ i, ∃ a, (placing rules s schedule).sessions i = .done a) →
      SideBySide rules s (placing rules s schedule)) := by
  constructor
  · intro i hturns
    exact done_of_turns engine (fun i => place (rules i)) s (endsWithin_place (rules i)) hturns
  · intro hdone
    have hsettled {i : ι} {a : Except RequestError RuleHandle}
        (h : (placing rules s schedule).sessions i = .done a) :=
      settled_placing unarmed few h
    have hplaced {i : ι} {r : RuleHandle} := placed_iff (r := r) unarmed few (hdone i)
    refine {
      outcome := ?_
      distinct := ?_
      fresh := fun i r h => get?_of_made reach few (hplaced.mp h).1
      rule := ?_
      references := ?_
    }
    · intro i a h
      rw [(hsettled h).ending, ending_place unarmed]
    · intro i j r hi hj
      exact made_injective few (hplaced.mp hi).1 (hplaced.mp hj).1
    · intro r e
      rw [get?_rule_placing_iff reach few]
      simp only [hplaced]
    · intro t
      refine ⟨_, ?_, tables_placing rules s schedule t⟩
      have hmerges := merges_filterMap (boundObject? t) (placing rules s schedule).log
      have hparts : (fun i => (own i (placing rules s schedule).log).filterMap (boundObject? t)) =
          fun i => share (rules i) t (own i (placing rules s schedule).log) := by
        funext i
        obtain ⟨a, ha⟩ := hdone i
        exact (hsettled ha).bound t
      rwa [hparts] at hmerges

/-- A rule without keys in one of the first tables. -/
def plainRule (number : Nat) (objects : List ObjectId) : Rule where
  table := handle .table number
  kind := .ipv4
  priority := 7
  keys := []
  verdict := .nop
  references := objects

/-- Three rules for one table, of which one has a null reference, and a rule for no table. -/
def crowd : Fin 4 → Rule
  | 0 => plainRule 1 [5, 6]
  | 1 => plainRule 1 [7, 0, 8]
  | 2 => plainRule 9 [5]
  | 3 => plainRule 1 [4]

/-- The second rule is taken away in the midst of the others. -/
def crowded : Progress (Fin 4) (Except RequestError RuleHandle) Switch :=
  placing crowd (Switch.empty.answer (.createTable .ipv4)).2
    [0, 1, 3, 1, 0, 2, 1, 0, 1, 3, 0, 1, 2, 2, 3]

theorem placements_settle_crowded :
    (∀ i, ∃ a, crowded.sessions i = .done a) ∧ crowded.state.issued < 2 ^ 26 ∧
    SideBySide crowd (Switch.empty.answer (.createTable .ipv4)).2 crowded ∧
    crowded.state.tables.entries = [(handle .table 1, ⟨.ipv4, [7, 5, 6, 4]⟩)] ∧
    crowded.state.rules.entries =
      [(handle .rule 2, (crowd 0).toEntry), (handle .rule 4, (crowd 3).toEntry)] := by
  have hreach : Reachable (Switch.empty.answer (.createTable .ipv4)).2 :=
    Reaches.refl.call (.createTable .ipv4)
  have hunarmed : Unarmed (Switch.empty.answer (.createTable .ipv4)).2 := fun op => rfl
  have hfew : crowded.state.issued < 2 ^ 26 := by decide
  have hsettle := placements_settle hreach hunarmed crowd
    [0, 1, 3, 1, 0, 2, 1, 0, 1, 3, 0, 1, 2, 2, 3] hfew
  have hdone : ∀ i, ∃ a, crowded.sessions i = .done a := by
    intro i
    apply hsettle.1
    revert i
    decide
  exact ⟨hdone, hfew, hsettle.2 hdone, by decide, by decide⟩

end AccessList.Proofs.ConcurrentPlacements
