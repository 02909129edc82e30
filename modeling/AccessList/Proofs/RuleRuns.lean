import AccessList.Proofs.Placements
import AccessList.Proofs.TableRuns

/-!
Placing the rules of a scenario. A rule that a request describes belongs to a live table and
names real objects, so it fails to be placed only where a failure strikes, and before any of
its objects is bound. Since a failure strikes once, at most one rule stays that was not
reported as placed.
-/
namespace AccessList.Proofs.RuleRuns

open Errors Fields Handles Limits Placements Reachability Registries Reports RequestRuns
  Requests Rules Runs Scenarios Sessions SwitchCalls Switches Switch TableRuns

/-- The handle of a rule that was placed. -/
def placedHandle? (x : RuleReport) : Option RuleHandle :=
  match x.outcome with
  | .ok (_, h) => h
  | .error _ => none

theorem mem_placed {reports : List RuleReport} {r : RuleHandle} :
    r ∈ reports.filterMap placedHandle? ↔
      ∃ x ∈ reports, ∃ rule, x.outcome = .ok (rule, some r) := by
  rw [List.mem_filterMap]
  constructor
  · rintro ⟨x, hx, hhandle⟩
    unfold placedHandle? at hhandle
    split at hhandle
    next rule h houtcome =>
      rw [hhandle] at houtcome
      exact ⟨x, hx, rule, houtcome⟩
    next => cases hhandle
  · rintro ⟨x, hx, rule, houtcome⟩
    refine ⟨x, hx, ?_⟩
    simp only [placedHandle?, houtcome]

/-- The objects that a reported rule binds a table to. -/
def objectsFor (t : TableHandle) (x : RuleReport) : List ObjectId :=
  match x.outcome with
  | .ok (rule, _) => if rule.table = t then rule.references else []
  | .error _ => []

/-- What an attempt that places no rule may leave behind. -/
structure Abandoned (s s' : Switch) : Prop where
  tables : ∀ t, s'.tables.get? t = s.tables.get? t
  issued : s'.issued ≤ s.issued + 1
  armed : ∀ op, s'.armed op = none ∨ s'.armed op = s.armed op
  rules : s'.rules = s.rules ∨ ∃ r e, s.rules.get? r = none ∧
    s'.rules = s.rules.insert r e ∧ FailsNext s .bind ∧ FailsNext s .deleteRule ∧
    s'.armed .bind = none

theorem abandoned_refl (s : Switch) : Abandoned s s :=
  ⟨fun _ => rfl, by omega, fun _ => Or.inr rfl, Or.inl rfl⟩

theorem armed_of_onlySpent {s s' : Switch} {ops : List Operation} (h : OnlySpent s s' ops)
    (op : Operation) : s'.armed op = none ∨ s'.armed op = s.armed op := by
  rw [h op]
  split
  · exact Or.inl rfl
  · exact Or.inr rfl

theorem onlyBound_nil {s s' : Switch} {t : TableHandle} (h : OnlyBound s s' t [])
    (u : TableHandle) : s'.tables.get? u = s.tables.get? u := by
  by_cases hu : u = t
  · subst hu
    rw [h.there]
    cases s.tables.get? u with
    | none => rfl
    | some table => simp only [Option.map_some, Table.extended, List.append_nil]
  · exact h.elsewhere u hu

/-- A rule on a live table that names real objects fails to be placed without a trace, unless
the failures of binding and of taking away both strike. -/
theorem abandoned_of_notPlaced {rule : Rule} {s s' : Switch} {cause : EngineError}
    (h : NotPlaced rule s s' cause) {table : Table}
    (hlive : s.tables.get? rule.table = some table) (hreal : 0 ∉ rule.references) :
    Abandoned s s' := by
  cases h with
  | refused hrefused hrules htables hissued harmed =>
    refine ⟨fun t => by rw [htables], by omega, armed_of_onlySpent harmed, Or.inl hrules⟩
  | @undone r before after object u hcreated hsplit hbound hfailed hfresh hrules hleft htables
      hissued harmed =>
    have hu : u = stored (s.disarm .createRule) rule.toEntry := by
      rcases createRule_cases rule.toEntry s with ⟨other, hcase⟩ | ⟨-, -, -, hcase⟩
      · rw [hcase] at hcreated
        cases hcreated
      · rw [hcase] at hcreated
        cases hcreated
        rfl
    have hulive : u.tables.get? rule.table = some table := by
      rw [hu]
      exact hlive
    have hobject : object ≠ 0 := by
      intro hzero
      apply hreal
      rw [hsplit, hzero]
      exact List.mem_append_right _ List.mem_cons_self
    obtain ⟨rfl, hstruck⟩ := first_of_failed hulive hobject hbound hfailed
    have hbind : FailsNext s .bind := by
      refine (failsNext_congr ?_).mp hstruck
      rw [hu]
      rfl
    refine ⟨onlyBound_nil htables, by omega, armed_of_onlySpent harmed, ?_⟩
    by_cases hdelete : FailsNext s .deleteRule
    · refine Or.inr ⟨r, rule.toEntry, hfresh, hleft hdelete, hbind, hdelete, ?_⟩
      rw [harmed, if_pos (by decide)]
    · exact Or.inl (hrules hdelete)

section Steps
variable {start s s' : Switch} {handles : List RuleHandle} {rule : Rule} {r : RuleHandle}

theorem armed_trans {u : Switch} {op : Operation}
    (h : s'.armed op = none ∨ s'.armed op = s.armed op)
    (hs : s.armed op = none ∨ s.armed op = u.armed op) :
    s'.armed op = none ∨ s'.armed op = u.armed op := by
  rcases h with hnone | hsame
  · exact Or.inl hnone
  · rw [hsame]
    exact hs

theorem unarmed_of {op : Operation} (h : s'.armed op = none ∨ s'.armed op = s.armed op)
    (hs : s.armed op = none) : s'.armed op = none := by
  rcases h with hnone | hsame
  · exact hnone
  · rw [hsame, hs]

/-- A failure that strikes now was armed from the start. -/
theorem failsNext_start {op : Operation}
    (harmed : s.armed op = none ∨ s.armed op = start.armed op) (h : FailsNext s op) :
    FailsNext start op := by
  rcases harmed with hnone | hsame
  · obtain ⟨status, hstatus, -⟩ := h
    rw [hnone] at hstatus
    cases hstatus
  · exact (failsNext_congr hsame).mp h

theorem kind_of_onlyBound {t : TableHandle} {objects : List ObjectId}
    (h : OnlyBound s s' t objects) (u : TableHandle) :
    (s'.tables.get? u).map Table.kind = (s.tables.get? u).map Table.kind := by
  by_cases hu : u = t
  · subst hu
    rw [h.there]
    cases s.tables.get? u <;> rfl
  · rw [h.elsewhere u hu]

theorem Abandoned.held (hs : Abandoned s s') {e : Entry} (hr : s.rules.get? r = some e) :
    s'.rules.get? r = some e := by
  rcases hs.rules with hsame | ⟨other, entry, hfree, hinsert, -⟩
  · rw [hsame, hr]
  · rw [hinsert, Registry.get?_insert, if_neg, hr]
    intro heq
    rw [heq, hr] at hfree
    cases hfree

theorem get?_of_placed (hs : Placed rule s s' r) (other : RuleHandle) :
    s'.rules.get? other = if r = other then some rule.toEntry else s.rules.get? other := by
  rw [hs.rules, Registry.get?_insert]

theorem held_of_placed (hs : Placed rule s s' r) {other : RuleHandle} {e : Entry}
    (hother : s.rules.get? other = some e) : s'.rules.get? other = some e := by
  rw [get?_of_placed hs, if_neg, hother]
  intro heq
  have hfresh := hs.fresh
  rw [heq, hother] at hfresh
  cases hfresh

/-- At most one rule is stored under none of the handles: none unless both failures were
armed, and then that of binding is spent. -/
def OneLeft (start s : Switch) (handles : List RuleHandle) : Prop :=
  ∃ left : Option RuleHandle,
    (left ≠ none → FailsNext start .bind ∧ FailsNext start .deleteRule ∧
      s.armed .bind = none) ∧
    ∀ r, s.rules.get? r ≠ none → r ∈ handles ∨ left = some r

/-- A rule that is left behind is the first: the failure that left another one is spent. -/
theorem OneLeft.of_abandoned (h : OneLeft start s handles)
    (harmed : ∀ op, s.armed op = none ∨ s.armed op = start.armed op) (hs : Abandoned s s') :
    OneLeft start s' handles := by
  obtain ⟨left, hleft, hothers⟩ := h
  rcases hs.rules with hsame | ⟨r, e, -, hinsert, hbind, hdelete, hspent⟩
  · refine ⟨left, fun hsome => ?_, ?_⟩
    · obtain ⟨hbind, hdelete, hspent⟩ := hleft hsome
      exact ⟨hbind, hdelete, unarmed_of (hs.armed .bind) hspent⟩
    · rw [hsame]
      exact hothers
  · -- Binding has failed just now, so no earlier rule was left behind.
    have hnone : left = none := by
      by_contra hsome
      obtain ⟨-, -, hunarmed⟩ := hleft hsome
      obtain ⟨status, hstatus, -⟩ := hbind
      rw [hunarmed] at hstatus
      cases hstatus
    refine ⟨some r, fun _ => ⟨failsNext_start (harmed _) hbind,
      failsNext_start (harmed _) hdelete, hspent⟩, ?_⟩
    intro other hother
    by_cases heq : r = other
    · exact Or.inr (congrArg some heq)
    · rw [hinsert, Registry.get?_insert, if_neg heq] at hother
      rcases hothers other hother with hmem | hsome
      · exact Or.inl hmem
      · rw [hnone] at hsome
        cases hsome

theorem OneLeft.of_placed (h : OneLeft start s handles) (hs : Placed rule s s' r) :
    OneLeft start s' (handles ++ [r]) := by
  obtain ⟨left, hleft, hothers⟩ := h
  refine ⟨left, fun hsome => ?_, fun other hother => ?_⟩
  · obtain ⟨hbind, hdelete, hspent⟩ := hleft hsome
    exact ⟨hbind, hdelete, unarmed_of (armed_of_onlySpent hs.armed .bind) hspent⟩
  · rw [get?_of_placed hs] at hother
    by_cases heq : r = other
    · rw [← heq]
      exact Or.inl (List.mem_append_right _ (List.mem_singleton_self r))
    · rw [if_neg heq] at hother
      rcases hothers other hother with hmem | hsome
      · exact Or.inl (List.mem_append_left _ hmem)
      · exact Or.inr hsome

end Steps

/-- What holds while rules are placed, from the switch on which the tables were opened. -/
structure RulesSoFar (start : Switch) (reports : List RuleReport) (s : Switch) : Prop where
  numbered : Numbered s
  issued : s.issued ≤ start.issued + reports.length
  kinds : ∀ t, (s.tables.get? t).map Table.kind = (start.tables.get? t).map Table.kind
  bound : ∀ t table, s.tables.get? t = some table →
    table.references = reports.flatMap (objectsFor t)
  stored : ∀ x ∈ reports, ∀ rule h, x.outcome = .ok (rule, h) →
    ∃ r, h = some r ∧ s.rules.get? r = some rule.toEntry
  distinct : (reports.filterMap placedHandle?).Nodup
  others : OneLeft start s (reports.filterMap placedHandle?)
  armed : ∀ op, s.armed op = none ∨ s.armed op = start.armed op

theorem RulesSoFar.abandoned {start s s' : Switch} {reports : List RuleReport}
    (h : RulesSoFar start reports s) (name : String) (failure : Failure)
    (hnumbered : Numbered s') (hs : Abandoned s s') :
    RulesSoFar start (reports ++ [⟨name, .error failure⟩]) s' := by
  have hhandles : (reports ++ [(⟨name, .error failure⟩ : RuleReport)]).filterMap
      placedHandle? = reports.filterMap placedHandle? := by
    rw [List.filterMap_append]
    exact List.append_nil _
  have hobjects (t : TableHandle) :
      (reports ++ [(⟨name, .error failure⟩ : RuleReport)]).flatMap (objectsFor t) =
        reports.flatMap (objectsFor t) := by
    rw [List.flatMap_append]
    exact List.append_nil _
  refine {
    numbered := hnumbered
    issued := ?_
    kinds := ?_
    bound := ?_
    stored := ?_
    distinct := by rw [hhandles]; exact h.distinct
    others := by rw [hhandles]; exact h.others.of_abandoned h.armed hs
    armed := fun op => armed_trans (hs.armed op) (h.armed op)
  }
  · have hle := h.issued
    have hnext := hs.issued
    rw [List.length_append, List.length_singleton]
    omega
  · intro t
    rw [hs.tables t]
    exact h.kinds t
  · intro t table htable
    rw [hs.tables t] at htable
    rw [hobjects]
    exact h.bound t table htable
  · intro x hx rule given houtcome
    rcases List.mem_append.mp hx with hold | hlast
    · obtain ⟨r, hgiven, hr⟩ := h.stored x hold rule given houtcome
      exact ⟨r, hgiven, hs.held hr⟩
    · obtain rfl := List.mem_singleton.mp hlast
      cases houtcome

theorem RulesSoFar.placed {start s s' : Switch} {reports : List RuleReport}
    (h : RulesSoFar start reports s) (name : String) {rule : Rule} {r : RuleHandle}
    (hnumbered : Numbered s') (hs : Placed rule s s' r) :
    RulesSoFar start (reports ++ [⟨name, .ok (rule, some r)⟩]) s' := by
  have hhandles : (reports ++ [(⟨name, .ok (rule, some r)⟩ : RuleReport)]).filterMap
      placedHandle? = reports.filterMap placedHandle? ++ [r] := List.filterMap_append
  have hobjects (t : TableHandle) :
      (reports ++ [(⟨name, .ok (rule, some r)⟩ : RuleReport)]).flatMap (objectsFor t) =
        reports.flatMap (objectsFor t) ++ if rule.table = t then rule.references else [] := by
    rw [List.flatMap_append, List.flatMap_singleton]
    rfl
  have hnew : r ∉ reports.filterMap placedHandle? := by
    intro hmem
    obtain ⟨x, hx, other, houtcome⟩ := mem_placed.mp hmem
    obtain ⟨r', hgiven, hr'⟩ := h.stored x hx other _ houtcome
    cases hgiven
    rw [hs.fresh] at hr'
    cases hr'
  refine {
    numbered := hnumbered
    issued := ?_
    kinds := fun t => (kind_of_onlyBound hs.tables t).trans (h.kinds t)
    bound := ?_
    stored := ?_
    distinct := ?_
    others := by rw [hhandles]; exact h.others.of_placed hs
    armed := fun op => armed_trans (armed_of_onlySpent hs.armed op) (h.armed op)
  }
  · have hle := h.issued
    have hnext := hs.issued
    rw [List.length_append, List.length_singleton]
    omega
  · intro t table htable
    rw [hobjects]
    by_cases ht : t = rule.table
    · subst ht
      rw [hs.tables.there] at htable
      obtain ⟨old, hold, rfl⟩ := Option.map_eq_some_iff.mp htable
      rw [if_pos rfl, ← h.bound _ old hold]
      rfl
    · rw [hs.tables.elsewhere t ht] at htable
      rw [if_neg (Ne.symm ht), List.append_nil]
      exact h.bound t table htable
  · intro x hx other given houtcome
    rcases List.mem_append.mp hx with hold | hlast
    · obtain ⟨r', hgiven, hr'⟩ := h.stored x hold other given houtcome
      exact ⟨r', hgiven, held_of_placed hs hr'⟩
    · obtain rfl := List.mem_singleton.mp hlast
      cases houtcome
      exact ⟨r, rfl, by rw [get?_of_placed hs, if_pos rfl]⟩
  · rw [hhandles, ← List.concat_eq_append]
    exact List.Nodup.concat hnew h.distinct

theorem rulesSoFar_nil {start s : Switch} {reports : List TableReport}
    (h : TablesSoFar start reports s) : RulesSoFar s [] s where
  numbered := h.numbered
  issued := by rw [List.length_nil, Nat.add_zero]
  kinds _ := rfl
  bound := h.unbound
  stored x hx := absurd hx List.not_mem_nil
  distinct := List.nodup_nil
  others := by
    refine ⟨none, fun hne => absurd rfl hne, fun r hr => ?_⟩
    rw [h.rules, Registry.get?_empty] at hr
    exact absurd rfl hr
  armed _ := Or.inr rfl

theorem rulesSoFar_runRule {start s : Switch} {reports : List RuleReport}
    (h : RulesSoFar start reports s) (settings : Settings) (tables : List TableReport)
    (request : RuleRequest) (few : s.issued + 1 < 2 ^ 26) :
    RulesSoFar start
      (reports ++ [((runRule settings true tables request).run engine s).1])
      ((runRule settings true tables request).run engine s).2 := by
  have hnumbered : Numbered ((runRule settings true tables request).run engine s).2 :=
    (Reaches.run .refl (runRule settings true tables request)).numbered h.numbered
  rw [run_runRule] at hnumbered ⊢
  cases htranslated : translated settings tables request s with
  | error failure => exact h.abandoned request.name failure h.numbered (abandoned_refl s)
  | ok rule =>
    obtain ⟨⟨table, hlive⟩, hreal⟩ := live_of_translated htranslated
    have heffect := effected_place (h.numbered.rules.get?_next few) rule
    rw [htranslated] at hnumbered
    simp only [if_true] at hnumbered ⊢
    generalize (place rule).run engine s = placement at heffect hnumbered ⊢
    obtain ⟨answer, s'⟩ := placement
    cases answer with
    | error cause =>
      obtain ⟨engineCause, rfl, hnot⟩ := heffect
      exact h.abandoned request.name _ hnumbered (abandoned_of_notPlaced hnot hlive hreal)
    | ok r => exact h.placed request.name hnumbered heffect

theorem rulesSoFar_each {start : Switch} (h : RulesSoFar start [] start)
    (settings : Settings) (tables : List TableReport) (requests : List RuleRequest)
    (few : start.issued + requests.length < 2 ^ 26) :
    RulesSoFar start
      ((Session.each (runRule settings true tables) requests).run engine start).1
      ((Session.each (runRule settings true tables) requests).run engine start).2 := by
  refine each_induction (I := RulesSoFar start) (n := requests.length) ?_
    requests [] start (by simp) h
  intro request done s hroom hs
  have hle := hs.issued
  exact rulesSoFar_runRule hs settings tables request (by omega)

/-- Rules that are only translated leave the switch alone and come without handles. -/
theorem each_translated (settings : Settings) (tables : List TableReport)
    (requests : List RuleRequest) (s : Switch) :
    ((Session.each (runRule settings false tables) requests).run engine s).2 = s ∧
    ∀ x ∈ ((Session.each (runRule settings false tables) requests).run engine s).1,
      ∀ rule h, x.outcome = .ok (rule, h) → h = none := by
  let I (done : List RuleReport) (u : Switch) : Prop :=
    u = s ∧ ∀ x ∈ done, ∀ rule h, x.outcome = .ok (rule, h) → h = none
  refine each_induction (I := I) (n := requests.length) ?_ requests [] s (by simp)
    ⟨rfl, fun x hx => absurd hx List.not_mem_nil⟩
  rintro request done u - ⟨rfl, hdone⟩
  rw [run_runRule]
  cases translated settings tables request u with
  | error failure =>
    refine ⟨rfl, fun x hx rule h houtcome => ?_⟩
    rcases List.mem_append.mp hx with hold | hlast
    · exact hdone x hold rule h houtcome
    · obtain rfl := List.mem_singleton.mp hlast
      cases houtcome
  | ok rule =>
    refine ⟨rfl, fun x hx other h houtcome => ?_⟩
    rcases List.mem_append.mp hx with hold | hlast
    · exact hdone x hold other h houtcome
    · obtain rfl := List.mem_singleton.mp hlast
      cases houtcome
      rfl

end AccessList.Proofs.RuleRuns
