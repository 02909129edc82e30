import AccessList.Scenarios
import Mathlib.Data.List.Forall2

/-!
The attributes of a rule request. The table comes first, then the priority, the matches and
the actions, each as far as it is given, so every match and every action has its attribute and
there is no other. There are no attributes where the table is unknown or, after that, where a
match cannot be read; the first such match is to blame.
-/
namespace AccessList.Proofs.RequestedAttributes

open Attributes Handles Matches Operands Scenarios Verdicts

/-- The attribute of a match: its qualifier with the pattern that is read. -/
inductive ReadsMatch (m : MatchRequest) : Attribute → Prop
  | field {p : Pattern} (read : m.pattern = .ok p) : ReadsMatch m (.field m.qualifier p)

/-- The attribute of an action says the same: an action on packets stays the one it is, and a
redirect keeps its target. -/
inductive AsksAction : ActionRequest → Attribute → Prop
  | packet (a : PacketAction) : AsksAction (.packet a) (.packet a)
  | redirect (target : ObjectId) : AsksAction (.redirect target) (.redirect target)
  | flood : AsksAction .flood .flood

/-- The attributes of a request, all of them and in their order. -/
inductive Requested (table : Option TableHandle) (r : RuleRequest) : List Attribute → Prop
  | inOrder {fields actions : List Attribute} (read : List.Forall₂ ReadsMatch r.matching fields)
      (asked : List.Forall₂ AsksAction r.actions actions) :
      Requested table r
        ((table.map fun t => Attribute.table t.raw).toList ++
          (r.priority.map Attribute.priority).toList ++ fields ++ actions)

section Matches
variable {ms : List MatchRequest} {fields : List Attribute}

theorem checkedPattern_of_ok {m : MatchRequest} {p : Pattern} (h : m.pattern = .ok p) :
    checkedPattern m = .ok p := by
  simp only [checkedPattern, h]

theorem checkedPattern_of_error {m : MatchRequest} {cause : ValueError}
    (h : m.pattern = .error cause) :
    checkedPattern m = .error (.invalidValue m.qualifier cause) := by
  simp only [checkedPattern, h]

theorem filterMap_table?_of_read (h : List.Forall₂ ReadsMatch ms fields) :
    fields.filterMap Attribute.table? = [] := by
  induction h with
  | nil => rfl
  | cons hfirst _ ih =>
    obtain ⟨-⟩ := hfirst
    exact ih

end Matches

section Actions
variable {asks : List ActionRequest} {actions : List Attribute}

theorem filterMap_table?_of_asked (h : List.Forall₂ AsksAction asks actions) :
    actions.filterMap Attribute.table? = [] := by
  induction h with
  | nil => rfl
  | cons hfirst _ ih =>
    obtain (_ | _ | _) := hfirst <;> exact ih

end Actions

section Requests
variable {tableNamed : String → Option TableHandle} {r : RuleRequest}
  {table : Option TableHandle} {attrs : List Attribute}

/-- No match and no action names a table. -/
theorem filterMap_table?_of_requested (h : Requested table r attrs) :
    attrs.filterMap Attribute.table? = (table.map Handle.raw).toList := by
  obtain ⟨hread, hasked⟩ := h
  have hpriority : (r.priority.map Attribute.priority).toList.filterMap Attribute.table? = [] := by
    cases r.priority <;> rfl
  rw [List.filterMap_append, List.filterMap_append, List.filterMap_append, hpriority,
    filterMap_table?_of_read hread, filterMap_table?_of_asked hasked]
  cases table <;> rfl

theorem tableOf_of_named {t : TableHandle} (h : Requested (some t) r attrs) (real : t.raw ≠ 0) :
    tableOf attrs = .ok t := by
  simp only [tableOf, filterMap_table?_of_requested h, Option.map_some, Option.toList_some,
    List.getLast?_singleton, Handle.ofRaw?_raw real]

end Requests

end AccessList.Proofs.RequestedAttributes
