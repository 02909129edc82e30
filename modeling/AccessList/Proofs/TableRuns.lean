import AccessList.Proofs.Reachability
import AccessList.Proofs.RequestRuns
import Mathlib.Data.List.Nodup

/-!
Opening the tables of a scenario on a new switch. After each request the live tables are
those reported with a handle, under handles that are all different, and none of them is bound
to anything yet.
-/
namespace AccessList.Proofs.TableRuns

open Errors Fields Handles Reachability Registries Reports RequestRuns Runs Scenarios Sessions
  Statuses SwitchCalls Switches Switch

/-- A new switch with failures armed beforehand. -/
def armedSwitch (armed : Operation → Option EngineStatus) : Switch :=
  { Switch.empty with armed := armed }

theorem numbered_armedSwitch (armed : Operation → Option EngineStatus) :
    Numbered (armedSwitch armed) := ⟨numbered_empty.tables, numbered_empty.rules⟩

/-- The handle of a table that was opened. -/
def openedHandle? (x : TableReport) : Option TableHandle :=
  match x.outcome with
  | .ok (_, t) => some t
  | .error _ => none

theorem mem_opened {reports : List TableReport} {t : TableHandle} :
    t ∈ reports.filterMap openedHandle? ↔ ∃ x ∈ reports, ∃ k, x.outcome = .ok (k, t) := by
  rw [List.mem_filterMap]
  constructor
  · rintro ⟨x, hx, hhandle⟩
    unfold openedHandle? at hhandle
    split at hhandle
    next k u houtcome =>
      cases hhandle
      exact ⟨x, hx, k, houtcome⟩
    next => cases hhandle
  · rintro ⟨x, hx, k, houtcome⟩
    refine ⟨x, hx, ?_⟩
    simp only [openedHandle?, houtcome]

/-- What holds while tables are opened. -/
structure TablesSoFar (start : Switch) (reports : List TableReport) (s : Switch) : Prop where
  numbered : Numbered s
  issued : s.issued ≤ reports.length
  live : ∀ t k, (s.tables.get? t).map Table.kind = some k ↔
    ∃ x ∈ reports, x.outcome = .ok (k, t)
  distinct : (reports.filterMap openedHandle?).Nodup
  unbound : ∀ t table, s.tables.get? t = some table → table.references = []
  rules : s.rules = Registries.empty
  armed : ∀ op, op ≠ .createTable → s.armed op = start.armed op

theorem tablesSoFar_nil (armed : Operation → Option EngineStatus) :
    TablesSoFar (armedSwitch armed) [] (armedSwitch armed) where
  numbered := numbered_armedSwitch armed
  issued := le_rfl
  live t k := by
    have hdead : (armedSwitch armed).tables.get? t = none := Registry.get?_empty t
    rw [hdead]
    simp
  distinct := List.nodup_nil
  unbound t table h := by
    have hdead : (armedSwitch armed).tables.get? t = none := Registry.get?_empty t
    rw [hdead] at h
    cases h
  rules := rfl
  armed _ _ := rfl

section TableSteps
variable {start s s' : Switch} {reports : List TableReport}

theorem TablesSoFar.failed (h : TablesSoFar start reports s) (name : String)
    (cause : RequestError) (hnumbered : Numbered s')
    (hs : s' = s ∨ s' = s.disarm .createTable) :
    TablesSoFar start (reports ++ [⟨name, .error cause⟩]) s' := by
  have htables : s'.tables = s.tables := by rcases hs with rfl | rfl <;> rfl
  have hrules : s'.rules = s.rules := by rcases hs with rfl | rfl <;> rfl
  have hissued : s'.issued = s.issued := by rcases hs with rfl | rfl <;> rfl
  have harmed (op : Operation) (hop : op ≠ .createTable) : s'.armed op = s.armed op := by
    rcases hs with rfl | rfl
    · rfl
    · rw [disarm_armed, if_neg hop]
  refine {
    numbered := hnumbered
    issued := ?_
    live := ?_
    distinct := ?_
    unbound := ?_
    rules := by rw [hrules, h.rules]
    armed := ?_
  }
  · have hle := h.issued
    rw [hissued, List.length_append]
    omega
  · intro t k
    rw [htables, h.live t k]
    simp
  · have hnone : List.filterMap openedHandle? [⟨name, .error cause⟩] = [] := rfl
    rw [List.filterMap_append, hnone, List.append_nil]
    exact h.distinct
  · intro t table
    rw [htables]
    exact h.unbound t table
  · intro op hop
    rw [harmed op hop]
    exact h.armed op hop

/-- The table that is opened next is none of those that are live. -/
theorem TablesSoFar.grown (h : TablesSoFar start reports s) (name : String) (k : Kind)
    (few : s.issued + 1 < 2 ^ 26) :
    TablesSoFar start (reports ++ [⟨name, .ok (k, handle .table (s.issued + 1))⟩])
      (opened (s.disarm .createTable) k) := by
  have hfresh : s.tables.get? (handle .table (s.issued + 1)) = none :=
    h.numbered.tables.get?_next few
  have hget (t : TableHandle) : (opened (s.disarm .createTable) k).tables.get? t =
      if handle .table (s.issued + 1) = t then some ⟨k, []⟩ else s.tables.get? t :=
    Registry.get?_insert s.tables _ _ t
  have hunused (other : Kind) :
      ¬ ∃ x ∈ reports, x.outcome = .ok (other, handle .table (s.issued + 1)) := by
    intro hused
    have hlive := (h.live _ other).mpr hused
    rw [hfresh] at hlive
    cases hlive
  have hnew : handle .table (s.issued + 1) ∉ reports.filterMap openedHandle? := by
    intro hmem
    obtain ⟨x, hx, other, houtcome⟩ := mem_opened.mp hmem
    exact hunused other ⟨x, hx, houtcome⟩
  refine {
    numbered := ⟨h.numbered.tables.insert_next _, h.numbered.rules.next⟩
    issued := ?_
    live := ?_
    distinct := ?_
    unbound := ?_
    rules := h.rules
    armed := ?_
  }
  · show s.issued + 1 ≤ (reports ++ [_]).length
    rw [List.length_append, List.length_singleton]
    have hle := h.issued
    omega
  · intro t other
    rw [hget]
    split
    next heq =>
      subst heq
      constructor
      · intro hkind
        cases hkind
        exact ⟨_, List.mem_append_right _ (List.mem_singleton_self _), rfl⟩
      · rintro ⟨x, hx, houtcome⟩
        rcases List.mem_append.mp hx with hold | hlast
        · exact absurd ⟨x, hold, houtcome⟩ (hunused other)
        · obtain rfl := List.mem_singleton.mp hlast
          cases houtcome
          rfl
    next hne =>
      rw [h.live t other]
      constructor
      · rintro ⟨x, hx, houtcome⟩
        exact ⟨x, List.mem_append_left _ hx, houtcome⟩
      · rintro ⟨x, hx, houtcome⟩
        rcases List.mem_append.mp hx with hold | hlast
        · exact ⟨x, hold, houtcome⟩
        · obtain rfl := List.mem_singleton.mp hlast
          cases houtcome
          exact absurd rfl hne
  · have hlast : List.filterMap openedHandle?
        [⟨name, .ok (k, handle .table (s.issued + 1))⟩] = [handle .table (s.issued + 1)] := rfl
    rw [List.filterMap_append, hlast, ← List.concat_eq_append]
    exact List.Nodup.concat hnew h.distinct
  · intro t table
    rw [hget]
    split
    next =>
      intro htable
      cases htable
      rfl
    next => exact h.unbound t table
  · intro op hop
    show (if op = .createTable then none else s.armed op) = start.armed op
    rw [if_neg hop]
    exact h.armed op hop

end TableSteps

theorem tablesSoFar_runTable {start s : Switch} {reports : List TableReport}
    (h : TablesSoFar start reports s) (request : TableRequest) (few : s.issued + 1 < 2 ^ 26) :
    TablesSoFar start (reports ++ [((runTable request).run engine s).1])
      ((runTable request).run engine s).2 := by
  rcases runTable_cases request s with ⟨cause, s', hrun, hs'⟩ | ⟨k, hrun⟩
  · have hnumbered : Numbered ((runTable request).run engine s).2 :=
      (Reaches.run .refl (runTable request)).numbered h.numbered
    rw [hrun] at hnumbered ⊢
    exact h.failed request.name cause hnumbered hs'
  · rw [hrun]
    exact h.grown request.name k few

theorem tablesSoFar_each (requests : List TableRequest)
    (armed : Operation → Option EngineStatus) (few : requests.length < 2 ^ 26) :
    TablesSoFar (armedSwitch armed)
      ((Session.each runTable requests).run engine (armedSwitch armed)).1
      ((Session.each runTable requests).run engine (armedSwitch armed)).2 := by
  refine each_induction (I := TablesSoFar (armedSwitch armed)) (n := requests.length) ?_
    requests [] (armedSwitch armed) (by simp) (tablesSoFar_nil armed)
  intro request done s hroom h
  have hle := h.issued
  exact tablesSoFar_runTable h request (by omega)

end AccessList.Proofs.TableRuns
