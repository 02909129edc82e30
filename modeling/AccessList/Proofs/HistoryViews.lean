import AccessList.Proofs.LiveObjects
import AccessList.Proofs.ObjectLives

/-!
What a switch shows of its tables and rules, read off its history. A table is live with the
kind it was opened with until it is deleted, it is bound to what it was bound to since it was
opened, and a rule is what it was made as. There are as many objects as were made and not
deleted, and a table can be deleted when all the rules that were made in it were.
-/
namespace AccessList.Proofs.HistoryViews

open Errors Fields FreshHandles Handles Histories LiveObjects ObjectLives Reachability
  Registries Rules Sessions Statuses SwitchCalls Switches Switch Transcripts

/-- What was opened under a handle, of which kind, and all that has passed since, without a
deletion. -/
def Opened (past : List Event) (t : TableHandle) (k : Kind) (since : List Event) : Prop :=
  ∃ before, past = before ++ ⟨.createTable k, .ok t⟩ :: since ∧ deletion t ∉ since

/-- The entry that was made under a handle and not deleted since. -/
def Made (past : List Event) (r : RuleHandle) (e : Entry) : Prop :=
  ∃ before since, past = before ++ ⟨.createRule e, .ok r⟩ :: since ∧ deletion r ∉ since

section Views
variable {past : List Event} {s : Switch}

theorem get?_table_iff (run : Leads Switch.empty past s) (few : s.issued ≤ 2 ^ 26)
    {t : TableHandle} {table : Table} :
    s.tables.get? t = some table ↔
      ∃ since, Opened past t table.kind since ∧
        table.references = since.filterMap (boundObject? t) := by
  have honce : (tableLife t).MadeOnce past :=
    madeOnce_of_nodup (fun ev => returned_of_made_table) (nodup_returned run few)
  have hnone : Switch.empty.tables.get? t = none := Registry.get?_empty t
  rw [(lived_of_leads run).1 t, hnone, (tableLife t).lived_eq_some_iff honce]
  constructor
  · rintro ⟨before, ev, since, new, hpast, hmade, hkept, rfl⟩
    obtain ⟨k, rfl, rfl⟩ := made_table_iff.mp hmade
    rw [grown_table]
    refine ⟨since, ⟨before, hpast, fun hdeleted => ?_⟩, List.nil_append _⟩
    have hended := hkept _ hdeleted
    rw [ended_table_iff.mpr rfl] at hended
    cases hended
  · rintro ⟨since, ⟨before, hpast, hkept⟩, hreferences⟩
    refine ⟨before, _, since, ⟨table.kind, []⟩, hpast, made_table_iff.mpr ⟨_, rfl, rfl⟩, ?_, ?_⟩
    · intro later hlater
      rw [Bool.eq_false_iff, Ne, ended_table_iff]
      rintro rfl
      exact hkept hlater
    · rw [grown_table, ← hreferences]
      rfl

theorem get?_rule_iff (run : Leads Switch.empty past s) (few : s.issued ≤ 2 ^ 26)
    {r : RuleHandle} {e : Entry} : s.rules.get? r = some e ↔ Made past r e := by
  have honce : (ruleLife r).MadeOnce past :=
    madeOnce_of_nodup (fun ev => returned_of_made_rule) (nodup_returned run few)
  have hnone : Switch.empty.rules.get? r = none := Registry.get?_empty r
  rw [(lived_of_leads run).2 r, hnone, (ruleLife r).lived_eq_some_iff honce]
  constructor
  · rintro ⟨before, ev, since, new, hpast, hmade, hkept, rfl⟩
    obtain rfl := made_rule_iff.mp hmade
    rw [grown_rule]
    refine ⟨before, since, hpast, fun hdeleted => ?_⟩
    have hended := hkept _ hdeleted
    rw [ended_rule_iff.mpr rfl] at hended
    cases hended
  · rintro ⟨before, since, hpast, hkept⟩
    refine ⟨before, _, since, e, hpast, made_rule_iff.mpr rfl, ?_, (grown_rule r since e).symm⟩
    intro later hlater
    rw [Bool.eq_false_iff, Ne, ended_rule_iff]
    rintro rfl
    exact hkept hlater

/-- A live table has the kind of its opening, and the references of the bindings since. -/
theorem get?_table_of_opened (run : Leads Switch.empty past s) (few : s.issued ≤ 2 ^ 26)
    {t : TableHandle} {k : Kind} {since : List Event} (h : Opened past t k since) :
    s.tables.get? t = some ⟨k, since.filterMap (boundObject? t)⟩ :=
  (get?_table_iff run few).mpr ⟨since, h, rfl⟩

theorem exists_opened_iff (run : Leads Switch.empty past s) (few : s.issued ≤ 2 ^ 26)
    {t : TableHandle} : (∃ k since, Opened past t k since) ↔ s.tables.get? t ≠ none := by
  constructor
  · rintro ⟨k, since, hopened⟩
    rw [get?_table_of_opened run few hopened]
    exact Option.some_ne_none _
  · intro hlive
    obtain ⟨table, htable⟩ := Option.ne_none_iff_exists'.mp hlive
    obtain ⟨since, hopened, -⟩ := (get?_table_iff run few).mp htable
    exact ⟨table.kind, since, hopened⟩

/-- Every rule that was made in a table was deleted. -/
def Emptied (past : List Event) (t : TableHandle) : Prop :=
  ∀ e r, ⟨.createRule e, .ok r⟩ ∈ past → e.table = t → deletion r ∈ past

theorem emptied_iff (run : Leads Switch.empty past s) (few : s.issued < 2 ^ 26)
    {t : TableHandle} : Emptied past t ↔ ∀ e ∈ s.rules.values, e.table ≠ t := by
  have hroom : s.issued ≤ 2 ^ 26 := Nat.le_of_lt few
  constructor
  · intro hemptied e hvalue htable
    obtain ⟨ts, rs, hcounted⟩ := (sound_of_reachable run.reaches few).counted
    obtain ⟨r, hr⟩ := Registry.get?_of_mem_values (hcounted.nodup_keys few).2 hvalue
    obtain ⟨before, since, hpast, hkept⟩ := (get?_rule_iff run hroom).mp hr
    have hmade : ⟨.createRule e, .ok r⟩ ∈ past := by
      rw [hpast]
      exact List.mem_append_right _ List.mem_cons_self
    -- What was deleted is dead, but this rule is there.
    have hdead := run.dead_of_deleted numbered_empty hroom (hemptied e r hmade htable)
    refine hdead ?_
    show s.rules.get? r ≠ none
    rw [hr]
    exact Option.some_ne_none e
  · intro hunused e r hmade htable
    by_contra hkept
    obtain ⟨before, since, hpast⟩ := List.append_of_mem hmade
    have hsince : deletion r ∉ since := by
      intro hdeleted
      apply hkept
      rw [hpast]
      exact List.mem_append_right _ (List.mem_cons_of_mem _ hdeleted)
    have hr : s.rules.get? r = some e :=
      (get?_rule_iff run hroom).mpr ⟨before, since, hpast, hsince⟩
    exact hunused e (Registry.mem_values_of_get? hr) htable

end Views

/-- How many objects of a sort a switch stores. -/
def held : Stored → Switch → Nat
  | .table, s => s.tables.size
  | .rule, s => s.rules.size

theorem held_of_performed {v w : Switch} {c : Call} {answer : Answer c}
    (h : Performed v c answer w) (hv : Sound v) (few : w.issued < 2 ^ 26) (o : Stored) :
    held o w + (if deletes o ⟨c, answer⟩ then 1 else 0) =
      held o v + (if creates o ⟨c, answer⟩ then 1 else 0) := by
  have hle : v.issued ≤ w.issued := h.change.issued_le
  obtain ⟨ts, rs, hcounted⟩ := hv.counted
  obtain ⟨htables, hrules⟩ := hcounted.nodup_keys (by omega)
  cases h with
  | failed cause => cases c <;> cases o <;> rfl
  | asked hlive => cases o <;> rfl
  | opened k =>
    cases o with
    | table => exact Registry.size_insert_of_free _ (hv.toNumbered.tables.get?_next few)
    | rule => rfl
  | closed hlive hunused =>
    cases o with
    | table => exact Registry.size_erase_of_get? htables hlive
    | rule => rfl
  | stored hlive htaken =>
    cases o with
    | table => rfl
    | rule => exact Registry.size_insert_of_free _ (hv.toNumbered.rules.get?_next few)
  | withdrawn hheld =>
    cases o with
    | table => rfl
    | rule => exact Registry.size_erase_of_get? hrules hheld
  | @extended t table object hlive hreal =>
    rw [extended_of_live [object] hlive]
    cases o with
    | table => exact Registry.size_insert_of_get? _ hlive
    | rule => rfl

theorem count_of_leads {past : List Event} {s : Switch} (run : Leads Switch.empty past s)
    (few : s.issued < 2 ^ 26) (o : Stored) :
    past.countP (creates o) = held o s + past.countP (deletes o) := by
  have hboth : s.issued < 2 ^ 26 →
      Sound s ∧ past.countP (creates o) = held o s + past.countP (deletes o) := by
    apply Leads.induction run
    · exact fun _ => ⟨sound_empty, by cases o <;> rfl⟩
    · intro g v armed hv hfew
      obtain ⟨hsound, hcount⟩ := hv hfew
      refine ⟨hsound.rearmed armed, hcount.trans ?_⟩
      cases o <;> rfl
    · intro g v c answer w hperformed hv hfew
      have hle : v.issued ≤ w.issued := hperformed.change.issued_le
      obtain ⟨hsound, hcount⟩ := hv (by omega)
      refine ⟨sound_change hsound hperformed.change hfew, ?_⟩
      have hstep := held_of_performed hperformed hsound hfew o
      rw [List.countP_append, List.countP_append, List.countP_singleton, List.countP_singleton]
      omega
  exact (hboth few).2

section Observing
variable {s : Switch} {t : TableHandle}

theorem deleteTable_of_dead (hspared : ¬ FailsNext s .deleteTable)
    (h : s.tables.get? t = none) : (s.deleteTable t).1 = .error (.invalidHandle t.raw) := by
  unfold deleteTable
  rw [strike_eq, fault_of_spared hspared]
  simp only [disarm_tables, h, Option.isNone_none, if_true]

theorem deleteTable_of_used (hspared : ¬ FailsNext s .deleteTable)
    (h : s.tables.get? t ≠ none) (hused : ¬ ∀ e ∈ s.rules.values, e.table ≠ t) :
    (s.deleteTable t).1 = .error (.resourceInUse ("ACL table " ++ t.text)) := by
  have hlive : ¬ ((s.disarm .deleteTable).tables.get? t).isNone = true := by simpa using h
  have hany : ((s.disarm .deleteTable).rules.values.any fun e => e.table = t) = true := by
    simpa using hused
  unfold deleteTable
  rw [strike_eq, fault_of_spared hspared]
  exact congrArg Prod.fst ((if_neg hlive).trans (if_pos hany))

theorem deleteTable_of_unused (hspared : ¬ FailsNext s .deleteTable)
    (h : s.tables.get? t ≠ none) (hunused : ∀ e ∈ s.rules.values, e.table ≠ t) :
    (s.deleteTable t).1 = .ok () := by
  have hlive : ¬ ((s.disarm .deleteTable).tables.get? t).isNone = true := by simpa using h
  have hany : ¬ ((s.disarm .deleteTable).rules.values.any fun e => e.table = t) = true := by
    simpa using hunused
  unfold deleteTable
  rw [strike_eq, fault_of_spared hspared]
  exact congrArg Prod.fst ((if_neg hlive).trans (if_neg hany))

theorem deleteTable_eq_ok_iff (hspared : ¬ FailsNext s .deleteTable) :
    (s.deleteTable t).1 = .ok () ↔
      s.tables.get? t ≠ none ∧ ∀ e ∈ s.rules.values, e.table ≠ t := by
  constructor
  · intro hok
    have hlive : s.tables.get? t ≠ none := by
      intro hdead
      rw [deleteTable_of_dead hspared hdead] at hok
      cases hok
    refine ⟨hlive, ?_⟩
    by_contra hused
    rw [deleteTable_of_used hspared hlive hused] at hok
    cases hok
  · rintro ⟨hlive, hunused⟩
    exact deleteTable_of_unused hspared hlive hunused

theorem tableKind_eq_ok_iff {k : Kind} :
    (s.tableKind t).1 = .ok k ↔ ∃ table, s.tables.get? t = some table ∧ table.kind = k := by
  cases hget : s.tables.get? t with
  | none => simp [tableKind_of_dead hget]
  | some table => simp [tableKind_of_live hget]

end Observing

/-- All that can be observed of a switch, told by what has passed on it. -/
structure Tells (past : List Event) (s : Switch) : Prop where
  kind : ∀ t k, (s.tableKind t).1 = .ok k ↔ ∃ since, Opened past t k since
  unknown : ∀ t, (¬ ∃ k since, Opened past t k since) →
    (s.tableKind t).1 = .error (.invalidHandle t.raw)
  references : ∀ t k since, Opened past t k since →
    s.references t = since.filterMap (boundObject? t)
  rule : ∀ r e, s.rules.get? r = some e ↔ Made past r e
  tableCount : past.countP (creates .table) = s.tables.size + past.countP (deletes .table)
  ruleCount : past.countP (creates .rule) = s.rules.size + past.countP (deletes .rule)
  deleted : ¬ FailsNext s .deleteTable → ∀ t, (s.deleteTable t).1 = .ok () ↔
    (∃ k since, Opened past t k since) ∧ Emptied past t
  dead : ¬ FailsNext s .deleteTable → ∀ t, (¬ ∃ k since, Opened past t k since) →
    (s.deleteTable t).1 = .error (.invalidHandle t.raw)
  inUse : ¬ FailsNext s .deleteTable → ∀ t, (∃ k since, Opened past t k since) →
    ¬ Emptied past t → (s.deleteTable t).1 = .error (.resourceInUse ("ACL table " ++ t.text))

/-- As long as a switch has handles left, its history tells all that can be observed of it. -/
theorem history_tells {past : List Event} {s : Switch} (run : Leads Switch.empty past s)
    (few : s.issued < 2 ^ 26) : Tells past s := by
  have hroom : s.issued ≤ 2 ^ 26 := Nat.le_of_lt few
  have hlive (t : TableHandle) := exists_opened_iff (t := t) run hroom
  have hdead (t : TableHandle) (h : ¬ ∃ k since, Opened past t k since) :
      s.tables.get? t = none := by
    rw [hlive, not_not] at h
    exact h
  have hemptied (t : TableHandle) := emptied_iff (t := t) run few
  refine {
    kind := ?_
    unknown := ?_
    references := ?_
    rule := fun r e => get?_rule_iff run hroom
    tableCount := count_of_leads run few .table
    ruleCount := count_of_leads run few .rule
    deleted := ?_
    dead := fun hspared t h => deleteTable_of_dead hspared (hdead t h)
    inUse := ?_
  }
  · intro t k
    rw [tableKind_eq_ok_iff]
    constructor
    · rintro ⟨table, htable, rfl⟩
      obtain ⟨since, hopened, -⟩ := (get?_table_iff run hroom).mp htable
      exact ⟨since, hopened⟩
    · rintro ⟨since, hopened⟩
      exact ⟨_, get?_table_of_opened run hroom hopened, rfl⟩
  · intro t h
    rw [tableKind_of_dead (hdead t h)]
  · intro t k since hopened
    simp only [Switch.references, get?_table_of_opened run hroom hopened, Option.map_some,
      Option.getD_some]
  · intro hspared t
    rw [hlive, hemptied, deleteTable_eq_ok_iff hspared]
  · intro hspared t hthere hnot
    rw [hlive] at hthere
    rw [hemptied] at hnot
    exact deleteTable_of_used hspared hthere hnot

/-- A switch on which one table kept its references when its rule was deleted and when a
binding failed, and another table has come and gone. -/
def seasoned : Switch :=
  let filled := ((Switch.empty.answer (.createTable .ipv4)).2.answer
    (.bind (handle .table 1) 5)).2
  let struck := ((filled.answer (.createRule dropAll)).2.arm .bind .hwFailure).answer
    (.bind (handle .table 1) 9)
  let emptied := ((struck.2.answer (.createTable .mac)).2.answer (.deleteRule (handle .rule 2))).2
  ((emptied.answer (.bind (handle .table 1) 6)).2.answer (.deleteTable (handle .table 3))).2

def seasoning : List Event :=
  [⟨.createTable .ipv4, .ok (handle .table 1)⟩, ⟨.bind (handle .table 1) 5, .ok ()⟩,
    ⟨.createRule dropAll, .ok (handle .rule 2)⟩,
    ⟨.bind (handle .table 1) 9, .error (.status .hwFailure)⟩,
    ⟨.createTable .mac, .ok (handle .table 3)⟩, ⟨.deleteRule (handle .rule 2), .ok ()⟩,
    ⟨.bind (handle .table 1) 6, .ok ()⟩, ⟨.deleteTable (handle .table 3), .ok ()⟩]

theorem history_tells_seasoning :
    Leads Switch.empty seasoning seasoned ∧ seasoned.issued < 2 ^ 26 ∧
    Tells seasoning seasoned ∧
    seasoned.tables.entries = [(handle .table 1, ⟨.ipv4, [5, 6]⟩)] ∧
    seasoned.rules.size = 0 := by
  have hfilled := ((Leads.refl (s := Switch.empty)).call (.createTable .ipv4)).call
    (.bind (handle .table 1) 5)
  have hstruck := ((hfilled.call (.createRule dropAll)).arm .bind .hwFailure).call
    (.bind (handle .table 1) 9)
  have hemptied := (hstruck.call (.createTable .mac)).call (.deleteRule (handle .rule 2))
  have hleads : Leads Switch.empty seasoning seasoned :=
    (hemptied.call (.bind (handle .table 1) 6)).call (.deleteTable (handle .table 3))
  have hfew : seasoned.issued < 2 ^ 26 := by decide
  exact ⟨hleads, hfew, history_tells hleads hfew, by decide, by decide⟩

end AccessList.Proofs.HistoryViews
