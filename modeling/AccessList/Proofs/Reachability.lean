import AccessList.Proofs.SwitchCalls
import Mathlib.Data.Nat.Bitwise

/-!
The states that a switch can come into, and what the numbers of its handles say about them.
Every handle that a switch stores carries a number that the switch has issued. As long as
fewer numbers are issued than fit below the mark, different numbers give different handles,
so the next handle is one that nothing is stored under.
-/
namespace AccessList.Proofs.Reachability

open Errors Fields Handles Registries Rules Sessions Statuses SwitchCalls Switches Switch

/-- The states that calls, and failures armed between them, lead to from a state. -/
inductive Reaches (s : Switch) : Switch → Prop
  | refl : Reaches s s
  | call {u : Switch} (c : Call) (before : Reaches s u) : Reaches s (u.answer c).2
  | arm {u : Switch} (op : Operation) (status : EngineStatus) (before : Reaches s u) :
      Reaches s (u.arm op status)

abbrev Reachable (s : Switch) : Prop := Reaches Switch.empty s

/-- What is kept by every change, by arming and by spending a failure holds of every state
that is reached. -/
theorem Reaches.induction {P : Switch → Prop} {s u : Switch} (h : Reaches s u) (start : P s)
    (arm : ∀ v op status, P v → P (v.arm op status))
    (disarm : ∀ v op, P v → P (v.disarm op))
    (change : ∀ v w, Change v w → P v → P w) : P u := by
  induction h with
  | refl => exact start
  | @call v c _ ih =>
    refine change _ _ (change_answer c v) ?_
    unfold spent
    split
    · exact ih
    · exact disarm _ _ ih
  | @arm v op status _ ih => exact arm v op status ih

theorem Reaches.run {α : Type} {s u : Switch} (h : Reaches s u) (p : Session α) :
    Reaches s (p.run engine u).2 := by
  induction p generalizing u with
  | done a => exact h
  | ask c next ih => exact ih _ (h.call c)

theorem mark_lt (o : Stored) : mark o < 2 ^ 5 := by
  cases o <;> decide

theorem toNat_handle (o : Stored) {number : Nat} (h : number < 2 ^ 26) :
    (handle o number).raw.toNat = mark o * 2 ^ 26 + number := by
  have hmark := mark_lt o
  have hor : mark o <<< 26 ||| number = mark o * 2 ^ 26 + number := by
    rw [← Nat.shiftLeft_add_eq_or_of_lt h, Nat.shiftLeft_eq]
  simp only [handle, UInt64.toNat_ofNat', hor]
  omega

theorem handle_injective {o : Stored} {m n : Nat} (hm : m < 2 ^ 26) (hn : n < 2 ^ 26)
    (h : handle o m = handle o n) : m = n := by
  have hraw : (handle o m).raw.toNat = (handle o n).raw.toNat := by rw [h]
  rw [toNat_handle o hm, toNat_handle o hn] at hraw
  omega

variable {o : Stored} {α : Type} {r : Registry (Handle o) α} {issued : Nat}

/-- Every key of a registry is the handle of a number that was issued. -/
def NumberedKeys (r : Registry (Handle o) α) (issued : Nat) : Prop :=
  ∀ h, r.get? h ≠ none → ∃ n, 1 ≤ n ∧ n ≤ issued ∧ h = handle o n

theorem NumberedKeys.next (h : NumberedKeys r issued) : NumberedKeys r (issued + 1) := by
  intro key hkey
  obtain ⟨n, hpos, hn, rfl⟩ := h key hkey
  exact ⟨n, hpos, by omega, rfl⟩

theorem NumberedKeys.insert (h : NumberedKeys r issued) {key : Handle o} (a : α)
    (hkey : ∃ n, 1 ≤ n ∧ n ≤ issued ∧ key = handle o n) :
    NumberedKeys (r.insert key a) issued := by
  intro other hother
  by_cases heq : key = other
  · rwa [← heq]
  · rw [Registry.get?_insert, if_neg heq] at hother
    exact h other hother

theorem NumberedKeys.insert_next (h : NumberedKeys r issued) (a : α) :
    NumberedKeys (r.insert (handle o (issued + 1)) a) (issued + 1) :=
  h.next.insert a ⟨issued + 1, by omega, by omega, rfl⟩

theorem NumberedKeys.erase (h : NumberedKeys r issued) (key : Handle o) :
    NumberedKeys (r.erase key) issued := by
  intro other hother
  rw [Registry.get?_erase] at hother
  by_cases heq : key = other
  · rw [if_pos heq] at hother
    exact absurd rfl hother
  · rw [if_neg heq] at hother
    exact h other hother

/-- Nothing is stored under the next handle. -/
theorem NumberedKeys.get?_next (h : NumberedKeys r issued) (few : issued + 1 < 2 ^ 26) :
    r.get? (handle o (issued + 1)) = none := by
  cases hget : r.get? (handle o (issued + 1)) with
  | none => rfl
  | some a =>
    obtain ⟨n, -, hn, heq⟩ := h _ (by rw [hget]; exact Option.some_ne_none a)
    have hnumber : issued + 1 = n := handle_injective few (by omega) heq
    omega

structure Numbered (s : Switch) : Prop where
  tables : NumberedKeys s.tables s.issued
  rules : NumberedKeys s.rules s.issued

theorem numbered_empty : Numbered Switch.empty where
  tables t h := absurd (Registry.get?_empty t) h
  rules r h := absurd (Registry.get?_empty r) h

theorem numbered_change {s s' : Switch} (h : Numbered s) (hchange : Change s s') :
    Numbered s' := by
  cases hchange with
  | kept => exact h
  | opened k => exact ⟨h.tables.insert_next _, h.rules.next⟩
  | @closed t table hlive hunused => exact ⟨h.tables.erase t, h.rules⟩
  | @stored e table hlive htaken => exact ⟨h.tables.next, h.rules.insert_next e⟩
  | @withdrawn r e hheld => exact ⟨h.tables, h.rules.erase r⟩
  | @extended t table object hlive hreal =>
    rw [extended_of_live [object] hlive]
    exact ⟨h.tables.insert _ (h.tables t (by rw [hlive]; exact Option.some_ne_none _)), h.rules⟩

theorem Reaches.numbered {s u : Switch} (h : Reaches s u) (hs : Numbered s) :
    Numbered u := by
  apply Reaches.induction h hs
  · intro v op status hv
    exact ⟨hv.tables, hv.rules⟩
  · intro v op hv
    exact ⟨hv.tables, hv.rules⟩
  · intro v w hchange hv
    exact numbered_change hv hchange

theorem Reachable.numbered {s : Switch} (h : Reachable s) : Numbered s :=
  Reaches.numbered h numbered_empty

end AccessList.Proofs.Reachability
