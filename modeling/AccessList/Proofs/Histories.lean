import AccessList.Proofs.Reachability
import AccessList.Proofs.Transcripts

/-!
Runs of a switch together with their history: every call that was made and what was answered
to it. A session that is run adds its transcript. The handles that a run returns are those of
the numbers that it issues, in order. As long as different numbers give different handles, a
table keeps its kind until it is deleted, and whatever was deleted stays dead.
-/
namespace AccessList.Proofs.Histories

open Errors Fields Handles Reachability Registries Rules Sessions Statuses SwitchCalls Switches
  Switch Transcripts

/-- The states that calls, and failures armed between them, lead to, with what has passed. -/
inductive Leads (s : Switch) : List Event → Switch → Prop
  | refl : Leads s [] s
  | call {past : List Event} {u : Switch} (c : Call) (before : Leads s past u) :
      Leads s (past ++ [⟨c, (u.answer c).1⟩]) (u.answer c).2
  | arm {past : List Event} {u : Switch} (op : Operation) (status : EngineStatus)
      (before : Leads s past u) : Leads s past (u.arm op status)

theorem Leads.reaches {s u : Switch} {past : List Event} (h : Leads s past u) :
    Reaches s u := by
  induction h with
  | refl => exact .refl
  | call c _ ih => exact ih.call c
  | arm op status _ ih => exact ih.arm op status

/-- A client's session is a part of the run like any other calls. -/
theorem Leads.run {α : Type} {s u : Switch} {past : List Event} (h : Leads s past u)
    (p : Session α) : Leads s (past ++ transcript engine p u) (p.run engine u).2 := by
  induction p generalizing past u with
  | done a =>
    rw [transcript, List.append_nil]
    exact h
  | ask c next ih =>
    have hrest := ih (u.answer c).1 (h.call c)
    rw [List.append_assoc, List.singleton_append] at hrest
    exact hrest

/-- What holds at the start, and is kept by arming, by spending a failure and by whatever a
call does with its answer, holds of every run. -/
theorem Leads.induction {P : List Event → Switch → Prop} {s u : Switch} {past : List Event}
    (h : Leads s past u) (start : P [] s)
    (rearm : ∀ g v armed, P g v → P g { v with armed := armed })
    (perform : ∀ g v c answer w, Performed v c answer w → P g v → P (g ++ [⟨c, answer⟩]) w) :
    P past u := by
  induction h with
  | refl => exact start
  | @call g v c _ ih =>
    refine perform g (spent v c) c _ _ (performed_answer c v) ?_
    unfold spent
    split
    · exact ih
    · exact rearm g v _ ih
  | @arm g v op status _ ih => exact rearm g v _ ih

/-- The handle that a call returned for a new object. -/
def returned? : Event → Option UInt64
  | ⟨.createTable _, .ok t⟩ => some t.raw
  | ⟨.createRule _, .ok r⟩ => some r.raw
  | _ => none

theorem returned_of_performed {s s' : Switch} {c : Call} {answer : Answer c}
    (h : Performed s c answer s') :
    (returned? ⟨c, answer⟩ = none ∧ s'.issued = s.issued) ∨
    ∃ o, returned? ⟨c, answer⟩ = some (handle o (s.issued + 1)).raw ∧
      s'.issued = s.issued + 1 := by
  cases h with
  | failed c cause => cases c <;> exact Or.inl ⟨rfl, rfl⟩
  | asked hlive => exact Or.inl ⟨rfl, rfl⟩
  | opened k => exact Or.inr ⟨.table, rfl, rfl⟩
  | closed hlive hunused => exact Or.inl ⟨rfl, rfl⟩
  | stored hlive htaken => exact Or.inr ⟨.rule, rfl, rfl⟩
  | withdrawn hheld => exact Or.inl ⟨rfl, rfl⟩
  | extended hlive hreal => exact Or.inl ⟨rfl, extended_issued s _ _⟩

/-- The handles of consecutive numbers for some objects. -/
def handlesFrom (number : Nat) : List Stored → List UInt64
  | [] => []
  | o :: rest => (handle o number).raw :: handlesFrom (number + 1) rest

theorem handlesFrom_concat (number : Nat) (os : List Stored) (o : Stored) :
    handlesFrom number (os ++ [o]) =
      handlesFrom number os ++ [(handle o (number + os.length)).raw] := by
  induction os generalizing number with
  | nil => rfl
  | cons first rest ih =>
    have hlength : number + 1 + rest.length = number + (rest.length + 1) := by omega
    simp only [List.cons_append, handlesFrom, ih, List.length_cons, hlength]

theorem mem_handlesFrom {number : Nat} {os : List Stored} {raw : UInt64}
    (h : raw ∈ handlesFrom number os) :
    ∃ o n, number ≤ n ∧ n < number + os.length ∧ raw = (handle o n).raw := by
  induction os generalizing number with
  | nil => cases h
  | cons first rest ih =>
    rw [List.length_cons]
    rcases List.mem_cons.mp h with hfirst | hrest
    · exact ⟨first, number, Nat.le_refl number, by omega, hfirst⟩
    · obtain ⟨o, n, hle, hlt, hraw⟩ := ih hrest
      exact ⟨o, n, by omega, by omega, hraw⟩

/-- A run of any length returns the handles of the numbers that it issues. -/
theorem Leads.returned {s u : Switch} {past : List Event} (h : Leads s past u) :
    ∃ os : List Stored, u.issued = s.issued + os.length ∧
      past.filterMap returned? = handlesFrom (s.issued + 1) os := by
  apply Leads.induction h
  · exact ⟨[], rfl, rfl⟩
  · intro g v armed hv
    exact hv
  · intro g v c answer w hperformed hv
    obtain ⟨os, hissued, hreturned⟩ := hv
    rw [List.filterMap_append, hreturned]
    rcases returned_of_performed hperformed with ⟨hnone, hsame⟩ | ⟨o, hsome, hnext⟩
    · have hlast : List.filterMap returned? [⟨c, answer⟩] = [] := by
        rw [List.filterMap_cons, hnone, List.filterMap_nil]
      refine ⟨os, by omega, ?_⟩
      rw [hlast, List.append_nil]
    · have hlast : List.filterMap returned? [⟨c, answer⟩] =
          [(handle o (v.issued + 1)).raw] := by
        rw [List.filterMap_cons, hsome, List.filterMap_nil]
      have hnumber : v.issued + 1 = s.issued + 1 + os.length := by omega
      refine ⟨os ++ [o], by rw [List.length_append, List.length_singleton]; omega, ?_⟩
      rw [hlast, handlesFrom_concat, hnumber]

/-- Only at the limit does a number reach the bits of the mark. -/
theorem toNat_handle_limit (o : Stored) :
    (handle o (2 ^ 26)).raw.toNat = 0x11 * 2 ^ 26 ∨
      (handle o (2 ^ 26)).raw.toNat = 0x13 * 2 ^ 26 := by
  cases o <;> decide

theorem eq_of_raw_eq {o o' : Stored} {m n : Nat} (hm : m ≤ 2 ^ 26) (hn : n ≤ 2 ^ 26)
    (hmpos : 1 ≤ m) (hnpos : 1 ≤ n) (h : (handle o m).raw = (handle o' n).raw) : m = n := by
  have hraw : (handle o m).raw.toNat = (handle o' n).raw.toNat := by rw [h]
  have hmark (o : Stored) : mark o = 0x11 ∨ mark o = 0x12 := by cases o <;> decide
  have hmark₁ := hmark o
  have hmark₂ := hmark o'
  rcases Nat.lt_or_eq_of_le hm with hmlt | rfl
  · rw [toNat_handle o hmlt] at hraw
    rcases Nat.lt_or_eq_of_le hn with hnlt | rfl
    · rw [toNat_handle o' hnlt] at hraw
      omega
    · have hlimit := toNat_handle_limit o'
      omega
  · have hlimit := toNat_handle_limit o
    rcases Nat.lt_or_eq_of_le hn with hnlt | rfl
    · rw [toNat_handle o' hnlt] at hraw
      omega
    · rfl

/-- A handle under which a switch stores something. -/
def Live : {o : Stored} → Handle o → Switch → Prop
  | .table, t, s => s.tables.get? t ≠ none
  | .rule, r, s => s.rules.get? r ≠ none

/-- The event that ends the life of an object. -/
def deletion : {o : Stored} → Handle o → Event
  | .table, t => ⟨.deleteTable t, .ok ()⟩
  | .rule, r => ⟨.deleteRule r, .ok ()⟩

theorem number_of_live {s : Switch} (h : Numbered s) {o : Stored} {x : Handle o}
    (hlive : Live x s) : ∃ n, 1 ≤ n ∧ n ≤ s.issued ∧ x = handle o n := by
  cases o with
  | table => exact h.tables x hlive
  | rule => exact h.rules x hlive

section Steps
variable {s s' : Switch} {c : Call} {answer : Answer c}

/-- No call returns a handle whose number was issued before it. -/
theorem returned_ne_of_performed (h : Performed s c answer s') (few : s'.issued ≤ 2 ^ 26)
    {o : Stored} {n : Nat} (hpos : 1 ≤ n) (hn : n ≤ s.issued) :
    returned? ⟨c, answer⟩ ≠ some (handle o n).raw := by
  intro hsame
  rcases returned_of_performed h with ⟨hnone, -⟩ | ⟨o', hsome, hnext⟩
  · rw [hnone] at hsame
    cases hsame
  · rw [hsome, Option.some.injEq] at hsame
    have hnumber : s.issued + 1 = n :=
      eq_of_raw_eq (by omega) (by omega) (by omega) hpos hsame
    omega

theorem live_of_deletion (h : Performed s c answer s') {o : Stored} {x : Handle o}
    (hevent : (⟨c, answer⟩ : Event) = deletion x) : Live x s ∧ ¬ Live x s' := by
  cases o with
  | table =>
    cases hevent
    cases h with
    | closed hlive hunused =>
      refine ⟨?_, fun hlive' => hlive' ?_⟩
      · show s.tables.get? x ≠ none
        rw [hlive]
        exact Option.some_ne_none _
      · exact (Registry.get?_erase s.tables x x).trans (if_pos rfl)
  | rule =>
    cases hevent
    cases h with
    | withdrawn hheld =>
      refine ⟨?_, fun hlive' => hlive' ?_⟩
      · show s.rules.get? x ≠ none
        rw [hheld]
        exact Option.some_ne_none _
      · exact (Registry.get?_erase s.rules x x).trans (if_pos rfl)

theorem handle_ne_of_raw_ne {o : Stored} {x y : Handle o}
    (h : some y.raw ≠ some x.raw) : y ≠ x := by
  intro heq
  apply h
  rw [heq]

/-- A call keeps the kind of a table that it neither opens nor deletes. -/
theorem kind_of_performed (h : Performed s c answer s') {t : TableHandle}
    (hnew : returned? ⟨c, answer⟩ ≠ some t.raw)
    (hkept : (⟨c, answer⟩ : Event) ≠ deletion t) :
    (s'.tables.get? t).map Table.kind = (s.tables.get? t).map Table.kind := by
  cases h with
  | failed cause => rfl
  | asked hlive => rfl
  | opened k =>
    have hget := Registry.get?_insert s.tables (handle .table (s.issued + 1)) ⟨k, []⟩ t
    rw [if_neg (handle_ne_of_raw_ne hnew)] at hget
    exact congrArg _ hget
  | @closed u table hlive hunused =>
    have hother : u ≠ t := by
      intro heq
      apply hkept
      rw [heq]
      rfl
    have hget := Registry.get?_erase s.tables u t
    rw [if_neg hother] at hget
    exact congrArg _ hget
  | stored hlive htaken => rfl
  | withdrawn hheld => rfl
  | @extended u table object hlive hreal =>
    rw [get?_extended]
    by_cases hu : u = t
    · rw [if_pos hu]
      cases s.tables.get? t <;> rfl
    · rw [if_neg hu]

theorem no_rule_of_performed (h : Performed s c answer s') {r : RuleHandle}
    (hnew : returned? ⟨c, answer⟩ ≠ some r.raw) (hdead : s.rules.get? r = none) :
    s'.rules.get? r = none := by
  cases h with
  | failed cause => exact hdead
  | asked hlive => exact hdead
  | opened k => exact hdead
  | closed hlive hunused => exact hdead
  | @stored e table hlive htaken =>
    have hget := Registry.get?_insert s.rules (handle .rule (s.issued + 1)) e r
    rw [if_neg (handle_ne_of_raw_ne hnew)] at hget
    exact hget.trans hdead
  | @withdrawn other e hheld =>
    have hget := Registry.get?_erase s.rules other r
    rw [hdead, ite_self] at hget
    exact hget
  | extended hlive hreal =>
    rw [extended_rules]
    exact hdead

/-- Only the call that returns a handle makes it live. -/
theorem dead_of_performed (h : Performed s c answer s') {o : Stored} {x : Handle o}
    (hnew : returned? ⟨c, answer⟩ ≠ some x.raw) (hdead : ¬ Live x s) : ¬ Live x s' := by
  cases o with
  | table =>
    have hnone : s.tables.get? x = none := not_not.mp hdead
    have hkept : (⟨c, answer⟩ : Event) ≠ deletion x :=
      fun hevent => hdead (live_of_deletion h hevent).1
    have hkind := kind_of_performed h hnew hkept
    rw [hnone, Option.map_none, Option.map_eq_none_iff] at hkind
    exact not_not.mpr hkind
  | rule => exact not_not.mpr (no_rule_of_performed h hnew (not_not.mp hdead))

end Steps

/-- What was deleted has a number that was issued, and is dead. -/
def Ended {o : Stored} (x : Handle o) (past : List Event) (u : Switch) : Prop :=
  deletion x ∈ past → (∃ n, 1 ≤ n ∧ n ≤ u.issued ∧ x = handle o n) ∧ ¬ Live x u

theorem Ended.perform {v w : Switch} {past : List Event} {c : Call} {answer : Answer c}
    {o : Stored} {x : Handle o} (h : Ended x past v) (hv : Numbered v)
    (hperformed : Performed v c answer w) (few : w.issued ≤ 2 ^ 26) :
    Ended x (past ++ [⟨c, answer⟩]) w := by
  intro hdeleted
  have hle : v.issued ≤ w.issued := hperformed.change.issued_le
  rcases List.mem_append.mp hdeleted with hold | hlast
  · obtain ⟨⟨n, hpos, hn, hx⟩, hdead⟩ := h hold
    have hnew : returned? ⟨c, answer⟩ ≠ some x.raw := by
      rw [hx]
      exact returned_ne_of_performed hperformed few hpos hn
    exact ⟨⟨n, hpos, by omega, hx⟩, dead_of_performed hperformed hnew hdead⟩
  · have hevent := (List.mem_singleton.mp hlast).symm
    obtain ⟨hlive, hdead⟩ := live_of_deletion hperformed hevent
    obtain ⟨n, hpos, hn, hx⟩ := number_of_live hv hlive
    exact ⟨⟨n, hpos, by omega, hx⟩, hdead⟩

theorem Leads.ended {s u : Switch} {past : List Event} (h : Leads s past u)
    (hs : Numbered s) {o : Stored} (x : Handle o) :
    Numbered u ∧ (u.issued ≤ 2 ^ 26 → Ended x past u) := by
  apply Leads.induction h
  · exact ⟨hs, fun _ hdeleted => absurd hdeleted List.not_mem_nil⟩
  · intro g v armed hv
    refine ⟨⟨hv.1.tables, hv.1.rules⟩, fun few hdeleted => ?_⟩
    obtain ⟨hnumber, hdead⟩ := hv.2 few hdeleted
    refine ⟨hnumber, ?_⟩
    cases o <;> exact hdead
  · intro g v c answer w hperformed hv
    have hle : v.issued ≤ w.issued := hperformed.change.issued_le
    refine ⟨numbered_change hv.1 hperformed.change, fun few => ?_⟩
    exact (hv.2 (by omega)).perform hv.1 hperformed few

/-- What was deleted in a run is dead at its end: its number is not issued again. -/
theorem Leads.dead_of_deleted {s u : Switch} {past : List Event} (h : Leads s past u)
    (hs : Numbered s) (few : u.issued ≤ 2 ^ 26) {o : Stored} {x : Handle o}
    (hdeleted : deletion x ∈ past) : ¬ Live x u :=
  ((h.ended hs x).2 few hdeleted).2

/-- A table that was there at the start of a run and was not deleted in it has the kind that
it had. -/
theorem Leads.kind_of_kept {s u : Switch} {past : List Event} (h : Leads s past u) {n : Nat}
    (hpos : 1 ≤ n) (hn : n ≤ s.issued) (few : u.issued ≤ 2 ^ 26)
    (hkept : deletion (handle .table n) ∉ past) :
    (u.tables.get? (handle .table n)).map Table.kind =
      (s.tables.get? (handle .table n)).map Table.kind := by
  have hboth : s.issued ≤ u.issued ∧
      (u.issued ≤ 2 ^ 26 → deletion (handle .table n) ∉ past →
        (u.tables.get? (handle .table n)).map Table.kind =
          (s.tables.get? (handle .table n)).map Table.kind) := by
    apply Leads.induction h
    · exact ⟨Nat.le_refl s.issued, fun _ _ => rfl⟩
    · intro g v armed hv
      exact hv
    · intro g v c answer w hperformed hv
      have hle : v.issued ≤ w.issued := hperformed.change.issued_le
      refine ⟨Nat.le_trans hv.1 hle, fun few hkept => ?_⟩
      have hbefore : deletion (handle .table n) ∉ g :=
        fun hmem => hkept (List.mem_append_left _ hmem)
      have hlast : (⟨c, answer⟩ : Event) ≠ deletion (handle .table n) := by
        intro hevent
        apply hkept
        rw [hevent]
        exact List.mem_append_right _ (List.mem_singleton_self _)
      -- The number was issued before, so no call returns its handle.
      have hnew : returned? ⟨c, answer⟩ ≠ some (handle .table n).raw :=
        returned_ne_of_performed hperformed few hpos (Nat.le_trans hn hv.1)
      rw [kind_of_performed hperformed hnew hlast]
      exact hv.2 (by omega) hbefore
  exact hboth.2 few hkept

end AccessList.Proofs.Histories
