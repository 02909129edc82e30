import AccessList.Proofs.Histories
import Mathlib.Data.List.Nodup

/-!
How far the handles of a switch are different. Up to the limit that the bits below the mark
allow, a run returns every handle once: nothing live is overwritten, and nothing deleted comes
back. The first table past the limit is given the handle of the first table of all, and
replaces it where it is still live.
-/
namespace AccessList.Proofs.FreshHandles

open Errors Fields Handles Histories Reachability Registries Rules Sessions Statuses
  SwitchCalls Switches Switch Transcripts

theorem nodup_handlesFrom {number : Nat} {os : List Stored} (hpos : 1 ≤ number)
    (few : number + os.length ≤ 2 ^ 26 + 1) : (handlesFrom number os).Nodup := by
  induction os generalizing number with
  | nil => exact List.nodup_nil
  | cons o rest ih =>
    rw [List.length_cons] at few
    rw [handlesFrom, List.nodup_cons]
    refine ⟨?_, ih (by omega) (by omega)⟩
    intro hmem
    obtain ⟨o', n, hle, hlt, hraw⟩ := mem_handlesFrom hmem
    have hnumber : number = n := eq_of_raw_eq (by omega) (by omega) hpos (by omega) hraw
    omega

theorem next_not_live {s : Switch} (h : Numbered s) (few : s.issued < 2 ^ 26) (o : Stored) :
    ¬ Live (handle o (s.issued + 1)) s := by
  intro hlive
  obtain ⟨n, hpos, hn, heq⟩ := number_of_live h hlive
  have hraw : (handle o (s.issued + 1)).raw = (handle o n).raw := by rw [heq]
  have hnumber : s.issued + 1 = n := eq_of_raw_eq few (by omega) (by omega) hpos hraw
  omega

/-- The handles that a run returned are all different, the next is not in use and those of
deleted objects are dead. -/
structure Fresh (past : List Event) (s : Switch) : Prop where
  distinct : (past.filterMap returned?).Nodup
  unused : s.issued < 2 ^ 26 → ∀ o, ¬ Live (handle o (s.issued + 1)) s
  ended : ∀ o, ∀ x : Handle o, deletion x ∈ past → ¬ Live x s

/-- Up to the limit a run of any calls returns every handle once. -/
theorem fresh_up_to_limit {past : List Event} {s : Switch}
    (run : Leads Switch.empty past s) (few : s.issued ≤ 2 ^ 26) : Fresh past s where
  distinct := by
    obtain ⟨os, hissued, hreturned⟩ := run.returned
    rw [hreturned]
    have hzero : Switch.empty.issued = 0 := rfl
    exact nodup_handlesFrom (by omega) (by omega)
  unused hroom o := next_not_live (Reachable.numbered run.reaches) hroom o
  ended o x hdeleted := run.dead_of_deleted numbered_empty few hdeleted

/-- An entry that drops all packets of a table. -/
def dropAll : Entry := ⟨handle .table 1, 7, [], ⟨.drop, none⟩⟩

/-- A switch on which a table and its rule were deleted again before another table was opened. -/
def reopened : Switch :=
  let filled := ((Switch.empty.answer (.createTable .ipv4)).2.answer (.createRule dropAll)).2
  let emptied := ((filled.answer (.deleteRule (handle .rule 2))).2.answer
    (.deleteTable (handle .table 1))).2
  (emptied.answer (.createTable .mac)).2

def reopening : List Event :=
  [⟨.createTable .ipv4, .ok (handle .table 1)⟩, ⟨.createRule dropAll, .ok (handle .rule 2)⟩,
    ⟨.deleteRule (handle .rule 2), .ok ()⟩, ⟨.deleteTable (handle .table 1), .ok ()⟩,
    ⟨.createTable .mac, .ok (handle .table 3)⟩]

theorem fresh_reopening :
    (deletion (handle .table 1) ∈ reopening ∧
      reopening.filterMap returned? = [0x44000001, 0x48000002, 0x44000003]) ∧
    Leads Switch.empty reopening reopened ∧ reopened.issued ≤ 2 ^ 26 ∧
    Fresh reopening reopened := by
  have hfilled := (Leads.refl (s := Switch.empty)).call (.createTable .ipv4) |>.call
    (.createRule dropAll)
  have hemptied := (hfilled.call (.deleteRule (handle .rule 2))).call
    (.deleteTable (handle .table 1))
  have hleads : Leads Switch.empty reopening reopened := hemptied.call (.createTable .mac)
  have hfew : reopened.issued ≤ 2 ^ 26 := by decide
  have hdeleted : deletion (handle .table 1) ∈ reopening := by
    simp only [reopening, deletion, List.mem_cons, true_or, or_true]
  exact ⟨⟨hdeleted, by decide⟩, hleads, hfew, fresh_up_to_limit hleads hfew⟩

/-- From the limit on the numbers of tables run into their mark. -/
theorem handle_past_limit {n : Nat} (h : n < 2 ^ 26) :
    handle .table (2 ^ 26 + n) = handle .table n := by
  have hsplit : 2 ^ 26 + n = 2 ^ 26 ||| n := by
    have hor := Nat.two_pow_add_eq_or_of_lt h 1
    rwa [Nat.mul_one] at hor
  have habsorbed : mark .table <<< 26 ||| 2 ^ 26 = mark .table <<< 26 := by decide
  have hbits : mark .table <<< 26 ||| (2 ^ 26 + n) = mark .table <<< 26 ||| n := by
    rw [hsplit, ← Nat.or_assoc, habsorbed]
  unfold handle
  rw [hbits]

theorem createTable_of_unarmed {s : Switch} (h : Unarmed s) (k : Kind) :
    s.createTable k = (.ok (handle .table (s.issued + 1)), opened s k) := by
  rcases createTable_cases k s with ⟨cause, hfault, -⟩ | ⟨-, hopened⟩
  · rw [fault_of_spared (h.spared .createTable)] at hfault
    cases hfault
  · rw [hopened, disarm_of_unarmed (h .createTable)]

/-- The history in which a number of tables of one kind are opened. -/
def openings (k : Kind) (count : Nat) : List Event :=
  (List.range count).map fun i => ⟨.createTable k, .ok (handle .table (i + 1))⟩

theorem leads_openings (k : Kind) (count : Nat) :
    ∃ s, Leads Switch.empty (openings k count) s ∧ s.issued = count ∧ Unarmed s ∧
      ∀ n, 1 ≤ n → n ≤ count → (s.tables.get? (handle .table n)).map Table.kind = some k := by
  induction count with
  | zero => exact ⟨Switch.empty, .refl, rfl, fun op => rfl, fun n hpos hn => by omega⟩
  | succ count ih =>
    obtain ⟨s, hleads, hissued, hunarmed, hkinds⟩ := ih
    have hanswer : s.answer (.createTable k) =
        (.ok (handle .table (count + 1)), opened s k) := by
      rw [← hissued]
      exact createTable_of_unarmed hunarmed k
    have hnext := hleads.call (.createTable k)
    rw [hanswer] at hnext
    refine ⟨opened s k, ?_, ?_, hunarmed, ?_⟩
    · rw [openings, List.range_succ, List.map_append, List.map_singleton]
      exact hnext
    · show s.issued + 1 = count + 1
      rw [hissued]
    · intro n hpos hn
      have hget : (opened s k).tables.get? (handle .table n) =
          if handle .table (s.issued + 1) = handle .table n then some (⟨k, []⟩ : Table)
          else s.tables.get? (handle .table n) := Registry.get?_insert s.tables _ _ _
      rw [hget]
      by_cases heq : handle .table (s.issued + 1) = handle .table n
      · rw [if_pos heq]
        rfl
      · rw [if_neg heq]
        have hold : n ≠ count + 1 := by
          intro hlast
          apply heq
          rw [hissued, hlast]
        exact hkinds n hpos (by omega)

theorem returned_openings (k : Kind) (count : Nat) :
    (openings k count).filterMap returned? =
      (List.range count).map fun i => (handle .table (i + 1)).raw := by
  rw [openings, List.filterMap_map, ← List.filterMap_eq_map]
  rfl

/-- The table past the limit takes the handle of the first one, which is still live. -/
theorem returned_again (k k' : Kind) {count : Nat} (hcount : count = 2 ^ 26) :
    ∃ s s', Leads Switch.empty (openings k count) s ∧
      (s.tables.get? (handle .table 1)).map Table.kind = some k ∧
      s.answer (.createTable k') = (.ok (handle .table 1), s') ∧
      (s'.tables.get? (handle .table 1)).map Table.kind = some k' ∧
      ¬ ((openings k count ++ [(⟨.createTable k', .ok (handle .table 1)⟩ : Event)]).filterMap
        returned?).Nodup := by
  obtain ⟨s, hleads, hissued, hunarmed, hkinds⟩ := leads_openings k count
  have hrepeated : handle .table (s.issued + 1) = handle .table 1 := by
    rw [hissued, hcount]
    exact handle_past_limit (by omega)
  have hanswer := createTable_of_unarmed hunarmed k'
  rw [hrepeated] at hanswer
  refine ⟨s, opened s k', hleads, hkinds 1 (by omega) (by omega), hanswer, ?_, ?_⟩
  · have hget : (opened s k').tables.get? (handle .table (s.issued + 1)) = some ⟨k', []⟩ :=
      (Registry.get?_insert s.tables _ _ _).trans (if_pos rfl)
    rw [hrepeated] at hget
    rw [hget]
    rfl
  · intro hnodup
    rw [List.filterMap_append, returned_openings] at hnodup
    have hfirst : (handle .table 1).raw ∈
        (List.range count).map fun i => (handle .table (i + 1)).raw :=
      List.mem_map.mpr ⟨0, List.mem_range.mpr (by omega), rfl⟩
    exact (List.nodup_append.mp hnodup).2.2 _ hfirst _ (List.mem_singleton_self _) rfl

/-- Opening tables of which none is deleted is enough: the last handle is that of the first,
and the table under it has changed its kind. -/
theorem first_handle_returned_again :
    ∃ s s', Leads Switch.empty (openings .ipv4 (2 ^ 26)) s ∧
      (s.tables.get? (handle .table 1)).map Table.kind = some .ipv4 ∧
      s.answer (.createTable .mac) = (.ok (handle .table 1), s') ∧
      (s'.tables.get? (handle .table 1)).map Table.kind = some .mac ∧
      ¬ ((openings .ipv4 (2 ^ 26) ++
        [(⟨.createTable .mac, .ok (handle .table 1)⟩ : Event)]).filterMap returned?).Nodup :=
  returned_again .ipv4 .mac rfl

end AccessList.Proofs.FreshHandles
