import AccessList.Proofs.FreshHandles

/-!
What becomes of one object in a history. Of all that has passed, only the calls on the object
itself matter to it: the one that makes it, the bindings and the deletion. A run of any length
leaves of every table and rule just what its history says. As long as every handle is returned
once, an object is made once, and so it is there exactly if it was made and not ended since.
-/
namespace AccessList.Proofs.ObjectLives

open Errors Fields FreshHandles Handles Histories Registries Rules Sessions SwitchCalls Switches
  Switch Transcripts

/-- The events that make an object of a sort. -/
def creates : Stored → Event → Bool
  | .table, ⟨.createTable _, .ok _⟩ => true
  | .rule, ⟨.createRule _, .ok _⟩ => true
  | _, _ => false

/-- The events that delete an object of a sort. -/
def deletes : Stored → Event → Bool
  | .table, ⟨.deleteTable _, .ok ()⟩ => true
  | .rule, ⟨.deleteRule _, .ok ()⟩ => true
  | _, _ => false

/-- What events mean for one object: which of them make it, which end it, and what the others
do to it. -/
structure Life (α : Type) where
  made? : Event → Option α
  ended : Event → Bool
  changed : Event → α → α

namespace Life
variable {α : Type} (l : Life α)

def next (old : Option α) (ev : Event) : Option α :=
  match l.made? ev with
  | some new => some new
  | none => if l.ended ev then none else old.map (l.changed ev)

def lived (past : List Event) (old : Option α) : Option α := past.foldl l.next old

def grown (past : List Event) (a : α) : α := past.foldl (fun a ev => l.changed ev a) a

theorem next_of_idle {ev : Event} (hmade : l.made? ev = none) (hended : l.ended ev = false)
    (hchanged : ∀ a, l.changed ev a = a) (old : Option α) : l.next old ev = old := by
  have hmap : old.map (l.changed ev) = old := by
    cases old with
    | none => rfl
    | some a => exact congrArg some (hchanged a)
  simp only [next, hmade, hended, Bool.false_eq_true, if_false, hmap]

theorem lived_append (before after : List Event) (old : Option α) :
    l.lived (before ++ after) old = l.lived after (l.lived before old) :=
  List.foldl_append

/-- Nothing comes of events that do not make the object. -/
theorem lived_none {past : List Event} (h : ∀ ev ∈ past, l.made? ev = none) :
    l.lived past none = none := by
  induction past with
  | nil => rfl
  | cons ev rest ih =>
    have hnext : l.next none ev = none := by
      simp only [next, h ev List.mem_cons_self, Option.map_none, ite_self]
    show l.lived rest (l.next none ev) = none
    rw [hnext]
    exact ih fun later hlater => h later (List.mem_cons_of_mem ev hlater)

/-- An object that is not made again lives until it is ended. -/
theorem lived_some {past : List Event} (h : ∀ ev ∈ past, l.made? ev = none) (a : α) :
    l.lived past (some a) = if past.any l.ended then none else some (l.grown past a) := by
  induction past generalizing a with
  | nil => rfl
  | cons ev rest ih =>
    have hrest : ∀ later ∈ rest, l.made? later = none :=
      fun later hlater => h later (List.mem_cons_of_mem ev hlater)
    show l.lived rest (l.next (some a) ev) = _
    cases hended : l.ended ev with
    | true =>
      have hnext : l.next (some a) ev = none := by
        simp only [next, h ev List.mem_cons_self, hended, if_true]
      rw [hnext, l.lived_none hrest]
      simp [hended]
    | false =>
      have hnext : l.next (some a) ev = some (l.changed ev a) := by
        simp [next, h ev List.mem_cons_self, hended]
      rw [hnext, ih hrest, List.any_cons, hended, Bool.false_or]
      rfl

/-- An object is made at most once in a history. -/
def MadeOnce (past : List Event) : Prop :=
  ∀ before ev after, past = before ++ ev :: after → l.made? ev ≠ none →
    ∀ later ∈ after, l.made? later = none

/-- An object that no event makes or ends is there if it was there before. -/
theorem lived_of_kept {past : List Event}
    (h : ∀ ev ∈ past, l.made? ev = none ∧ l.ended ev = false) (old : Option α) :
    l.lived past old = old.map (l.grown past) := by
  have hmade : ∀ ev ∈ past, l.made? ev = none := fun ev hev => (h ev hev).1
  cases old with
  | none => exact l.lived_none hmade
  | some a =>
    have hany : past.any l.ended = false := by simpa using fun ev hev => (h ev hev).2
    rw [l.lived_some hmade, hany]
    rfl

/-- Only what follows the making of an object matters to it. -/
theorem lived_of_made {past before after : List Event} {ev : Event} {new : α}
    (honce : l.MadeOnce past) (hpast : past = before ++ ev :: after)
    (hmade : l.made? ev = some new) (old : Option α) :
    l.lived past old = if after.any l.ended then none else some (l.grown after new) := by
  have hlater : ∀ later ∈ after, l.made? later = none :=
    honce before ev after hpast (by rw [hmade]; exact Option.some_ne_none new)
  have hnext (old : Option α) : l.next old ev = some new := by simp only [next, hmade]
  rw [hpast, l.lived_append]
  show l.lived after (l.next (l.lived before old) ev) = _
  rw [hnext, l.lived_some hlater]

/-- The object is there if it was made and not ended since. -/
theorem lived_eq_some_iff {past : List Event} (honce : l.MadeOnce past) {a : α} :
    l.lived past none = some a ↔
      ∃ before ev after new, past = before ++ ev :: after ∧ l.made? ev = some new ∧
        (∀ later ∈ after, l.ended later = false) ∧ a = l.grown after new := by
  constructor
  · intro h
    have hmade : ∃ ev ∈ past, l.made? ev ≠ none := by
      by_contra hnone
      push Not at hnone
      rw [l.lived_none hnone] at h
      cases h
    obtain ⟨ev, hmem, hev⟩ := hmade
    obtain ⟨new, hnew⟩ := Option.ne_none_iff_exists'.mp hev
    obtain ⟨before, after, hpast⟩ := List.append_of_mem hmem
    rw [l.lived_of_made honce hpast hnew] at h
    cases hended : after.any l.ended with
    | true =>
      rw [hended] at h
      cases h
    | false =>
      rw [hended] at h
      refine ⟨before, ev, after, new, hpast, hnew, ?_, (Option.some.inj h).symm⟩
      simpa using hended
  · rintro ⟨before, ev, after, new, hpast, hnew, hkept, rfl⟩
    have hended : after.any l.ended = false := by simpa using hkept
    rw [l.lived_of_made honce hpast hnew, hended]
    rfl

end Life

/-- The object that a table was bound to. -/
def boundObject? (t : TableHandle) : Event → Option ObjectId
  | ⟨.bind u object, .ok ()⟩ => if u = t then some object else none
  | _ => none

def tableLife (t : TableHandle) : Life Table where
  made?
    | ⟨.createTable k, .ok u⟩ => if u = t then some ⟨k, []⟩ else none
    | _ => none
  ended
    | ⟨.deleteTable u, .ok ()⟩ => decide (u = t)
    | _ => false
  changed ev table := Table.extended table (boundObject? t ev).toList

def ruleLife (r : RuleHandle) : Life Entry where
  made?
    | ⟨.createRule e, .ok u⟩ => if u = r then some e else none
    | _ => none
  ended
    | ⟨.deleteRule u, .ok ()⟩ => decide (u = r)
    | _ => false
  changed _ e := e

theorem made_table_iff {t : TableHandle} {ev : Event} {new : Table} :
    (tableLife t).made? ev = some new ↔ ∃ k, ev = ⟨.createTable k, .ok t⟩ ∧ new = ⟨k, []⟩ := by
  obtain ⟨c, answer⟩ := ev
  cases c with
  | createTable k =>
    cases answer with
    | error cause => simp [tableLife]
    | ok u =>
      by_cases hu : u = t
      · simp [tableLife, hu, eq_comm]
      · simp [tableLife, hu]
  | _ => simp [tableLife]

theorem made_rule_iff {r : RuleHandle} {ev : Event} {new : Entry} :
    (ruleLife r).made? ev = some new ↔ ev = ⟨.createRule new, .ok r⟩ := by
  obtain ⟨c, answer⟩ := ev
  cases c with
  | createRule e =>
    cases answer with
    | error cause => simp [ruleLife]
    | ok u =>
      by_cases hu : u = r
      · simp [ruleLife, hu]
      · simp [ruleLife, hu]
  | _ => simp [ruleLife]

theorem ended_table_iff {t : TableHandle} {ev : Event} :
    (tableLife t).ended ev = true ↔ ev = deletion t := by
  obtain ⟨c, answer⟩ := ev
  cases c with
  | deleteTable u =>
    cases answer with
    | error cause => simp [tableLife, deletion]
    | ok _ =>
      by_cases hu : u = t
      · simp [tableLife, deletion, hu]
      · simp [tableLife, deletion, hu]
  | _ => simp [tableLife, deletion]

theorem ended_rule_iff {r : RuleHandle} {ev : Event} :
    (ruleLife r).ended ev = true ↔ ev = deletion r := by
  obtain ⟨c, answer⟩ := ev
  cases c with
  | deleteRule u =>
    cases answer with
    | error cause => simp [ruleLife, deletion]
    | ok _ =>
      by_cases hu : u = r
      · simp [ruleLife, deletion, hu]
      · simp [ruleLife, deletion, hu]
  | _ => simp [ruleLife, deletion]

theorem grown_table (t : TableHandle) (past : List Event) (table : Table) :
    (tableLife t).grown past table =
      Table.extended table (past.filterMap (boundObject? t)) := by
  induction past generalizing table with
  | nil => simp [Life.grown, Table.extended]
  | cons ev rest ih =>
    show (tableLife t).grown rest (Table.extended table (boundObject? t ev).toList) = _
    rw [ih, List.filterMap_cons]
    cases boundObject? t ev <;> simp [Table.extended]

theorem grown_rule (r : RuleHandle) (past : List Event) (e : Entry) :
    (ruleLife r).grown past e = e := by
  induction past with
  | nil => rfl
  | cons ev rest ih => exact ih

theorem next_table_of_idle {t : TableHandle} {ev : Event} (hmade : (tableLife t).made? ev = none)
    (hended : (tableLife t).ended ev = false) (hbound : boundObject? t ev = none)
    (old : Option Table) : (tableLife t).next old ev = old := by
  refine (tableLife t).next_of_idle hmade hended (fun table => ?_) old
  simp only [tableLife, hbound, Option.toList_none, Table.extended, List.append_nil]

theorem next_rule_of_idle {r : RuleHandle} {ev : Event} (hmade : (ruleLife r).made? ev = none)
    (hended : (ruleLife r).ended ev = false) (old : Option Entry) :
    (ruleLife r).next old ev = old :=
  (ruleLife r).next_of_idle hmade hended (fun _ => rfl) old

section Steps
variable {v w : Switch} {c : Call} {answer : Answer c}

/-- What a call does to a table is what its event says. -/
theorem table_of_performed (h : Performed v c answer w) (t : TableHandle) :
    w.tables.get? t = (tableLife t).next (v.tables.get? t) ⟨c, answer⟩ := by
  cases h with
  | failed cause =>
    symm
    cases c <;> exact next_table_of_idle rfl rfl rfl _
  | asked hlive =>
    symm
    exact next_table_of_idle rfl rfl rfl _
  | stored hlive htaken =>
    symm
    exact next_table_of_idle rfl rfl rfl _
  | withdrawn hheld =>
    symm
    exact next_table_of_idle rfl rfl rfl _
  | opened k =>
    have hget : (opened v k).tables.get? t =
        if handle .table (v.issued + 1) = t then some ⟨k, []⟩ else v.tables.get? t :=
      Registry.get?_insert v.tables _ _ t
    rw [hget]
    by_cases ht : handle .table (v.issued + 1) = t
    · simp [Life.next, tableLife, ht]
    · have hmade : (tableLife t).made?
          ⟨.createTable k, .ok (handle .table (v.issued + 1))⟩ = none := if_neg ht
      rw [if_neg ht, next_table_of_idle hmade rfl rfl]
  | @closed u table hlive hunused =>
    have hget : (closed v u).tables.get? t = if u = t then none else v.tables.get? t :=
      Registry.get?_erase v.tables u t
    rw [hget]
    by_cases ht : u = t
    · simp [Life.next, tableLife, ht]
    · have hended : (tableLife t).ended ⟨.deleteTable u, .ok ()⟩ = false := decide_eq_false ht
      rw [if_neg ht, next_table_of_idle rfl hended rfl]
  | @extended u table object hlive hreal =>
    rw [get?_extended]
    by_cases ht : u = t
    · simp [Life.next, tableLife, boundObject?, ht]
    · have hbound : boundObject? t ⟨.bind u object, .ok ()⟩ = none := if_neg ht
      rw [if_neg ht, next_table_of_idle rfl rfl hbound]

/-- What a call does to a rule is what its event says. -/
theorem rule_of_performed (h : Performed v c answer w) (r : RuleHandle) :
    w.rules.get? r = (ruleLife r).next (v.rules.get? r) ⟨c, answer⟩ := by
  cases h with
  | failed cause =>
    symm
    cases c <;> exact next_rule_of_idle rfl rfl _
  | asked hlive =>
    symm
    exact next_rule_of_idle rfl rfl _
  | opened k =>
    symm
    exact next_rule_of_idle rfl rfl _
  | closed hlive hunused =>
    symm
    exact next_rule_of_idle rfl rfl _
  | extended hlive hreal =>
    rw [extended_rules]
    symm
    exact next_rule_of_idle rfl rfl _
  | @stored e table hlive htaken =>
    have hget : (stored v e).rules.get? r =
        if handle .rule (v.issued + 1) = r then some e else v.rules.get? r :=
      Registry.get?_insert v.rules _ e r
    rw [hget]
    by_cases hr : handle .rule (v.issued + 1) = r
    · simp [Life.next, ruleLife, hr]
    · have hmade : (ruleLife r).made?
          ⟨.createRule e, .ok (handle .rule (v.issued + 1))⟩ = none := if_neg hr
      rw [if_neg hr, next_rule_of_idle hmade rfl]
  | @withdrawn u e hheld =>
    have hget : (withdrawn v u).rules.get? r = if u = r then none else v.rules.get? r :=
      Registry.get?_erase v.rules u r
    rw [hget]
    by_cases hr : u = r
    · simp [Life.next, ruleLife, hr]
    · have hended : (ruleLife r).ended ⟨.deleteRule u, .ok ()⟩ = false := decide_eq_false hr
      rw [if_neg hr, next_rule_of_idle rfl hended]

end Steps

/-- A run leaves of every table and rule what its history says, of any length. -/
theorem lived_of_leads {s u : Switch} {past : List Event} (h : Leads s past u) :
    (∀ t, u.tables.get? t = (tableLife t).lived past (s.tables.get? t)) ∧
    ∀ r, u.rules.get? r = (ruleLife r).lived past (s.rules.get? r) := by
  apply Leads.induction h
  · exact ⟨fun t => rfl, fun r => rfl⟩
  · intro g v armed hv
    exact hv
  · intro g v c answer w hperformed hv
    constructor
    · intro t
      rw [table_of_performed hperformed, hv.1, Life.lived_append]
      rfl
    · intro r
      rw [rule_of_performed hperformed, hv.2, Life.lived_append]
      rfl

theorem returned_of_made_table {t : TableHandle} {ev : Event}
    (h : (tableLife t).made? ev ≠ none) : returned? ev = some t.raw := by
  obtain ⟨new, hnew⟩ := Option.ne_none_iff_exists'.mp h
  obtain ⟨k, rfl, -⟩ := made_table_iff.mp hnew
  rfl

theorem returned_of_made_rule {r : RuleHandle} {ev : Event}
    (h : (ruleLife r).made? ev ≠ none) : returned? ev = some r.raw := by
  obtain ⟨new, hnew⟩ := Option.ne_none_iff_exists'.mp h
  obtain rfl := made_rule_iff.mp hnew
  rfl

/-- A run that stays within the limit returns every handle once. -/
theorem nodup_returned {s u : Switch} {past : List Event} (run : Leads s past u)
    (few : u.issued ≤ 2 ^ 26) : (past.filterMap returned?).Nodup := by
  obtain ⟨os, hissued, hreturned⟩ := run.returned
  rw [hreturned]
  exact nodup_handlesFrom (by omega) (by omega)

theorem eq_of_nodup_filterMap {α β : Type} {f : α → Option β} {as : List α}
    (h : (as.filterMap f).Nodup) {x y : α} {b : β} (hx : x ∈ as) (hy : y ∈ as)
    (hfx : f x = some b) (hfy : f y = some b) : x = y := by
  by_contra hne
  obtain ⟨before, after, rfl⟩ := List.append_of_mem hx
  rw [List.filterMap_append, List.filterMap_cons_some hfx, List.nodup_middle, List.nodup_cons,
    ← List.filterMap_append] at h
  apply h.1
  refine List.mem_filterMap.mpr ⟨y, ?_, hfy⟩
  simpa [Ne.symm hne] using hy

/-- Handles that are all different name an object each. -/
theorem madeOnce_of_nodup {α : Type} {l : Life α} {raw : UInt64}
    (hmade : ∀ ev, l.made? ev ≠ none → returned? ev = some raw) {past : List Event}
    (h : (past.filterMap returned?).Nodup) : l.MadeOnce past := by
  intro before ev after hpast hev later hlater
  by_contra hagain
  rw [hpast, List.filterMap_append, List.filterMap_cons, hmade ev hev] at h
  have hmem : raw ∈ after.filterMap returned? :=
    List.mem_filterMap.mpr ⟨later, hlater, hmade later hagain⟩
  exact (List.nodup_cons.mp (List.nodup_append.mp h).2.1).1 hmem

end AccessList.Proofs.ObjectLives
