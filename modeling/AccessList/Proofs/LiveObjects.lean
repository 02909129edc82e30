import AccessList.Proofs.Reachability
import Mathlib.Data.List.Nodup

/-!
What holds of the tables and rules that a switch stores, whatever calls it was given and
whichever of them failed. A stored rule stays in a live table of the kind of its keys: the
table cannot be deleted before the rule, and no later table takes its handle. The latter
depends on the numbers of the handles, so what is kept says of all live objects together that
each has a number of its own.
-/
namespace AccessList.Proofs.LiveObjects

open Errors Fields Handles Keys Reachability Registries Rules Sessions Statuses SwitchCalls
  Switches Switch Verdicts

/-- The number of a handle, which stands below its mark. -/
def number {o : Stored} (h : Handle o) : Nat := h.raw.toNat % 2 ^ 26

theorem number_handle (o : Stored) {n : Nat} (h : n < 2 ^ 26) : number (handle o n) = n := by
  rw [number, toNat_handle o h]
  omega

theorem map_number_handle (o : Stored) {ns : List Nat} (h : ∀ n ∈ ns, n < 2 ^ 26) :
    (ns.map (handle o)).map number = ns := by
  have hnumbers : ns.map (number ∘ handle o) = ns.map id :=
    List.map_congr_left fun n hn => number_handle o (h n hn)
  rw [List.map_map, hnumbers, List.map_id]

/-- The live tables and rules have numbers that were issued, each object one of its own. -/
structure Counted (s : Switch) (ts rs : List Nat) : Prop where
  tables : s.tables.keys = ts.map (handle .table)
  rules : s.rules.keys = rs.map (handle .rule)
  distinct : (ts ++ rs).Nodup
  issued : ∀ n ∈ ts ++ rs, 1 ≤ n ∧ n ≤ s.issued

theorem nodup_with_next {before after : List Nat} {issued : Nat}
    (h : (before ++ after).Nodup) (hissued : ∀ n ∈ before ++ after, 1 ≤ n ∧ n ≤ issued) :
    (before ++ (issued + 1) :: after).Nodup := by
  rw [List.nodup_middle, List.nodup_cons]
  refine ⟨?_, h⟩
  intro hmem
  have hle := (hissued _ hmem).2
  omega

theorem issued_with_next {before after : List Nat} {issued : Nat}
    (h : ∀ n ∈ before ++ after, 1 ≤ n ∧ n ≤ issued) :
    ∀ n ∈ before ++ (issued + 1) :: after, 1 ≤ n ∧ n ≤ issued + 1 := by
  intro n hn
  by_cases hnext : n = issued + 1
  · omega
  · have hold : n ∈ before ++ after := by simpa [hnext] using hn
    have hbound := h n hold
    omega

section Counting
variable {s : Switch} {ts rs : List Nat}

theorem Counted.opened (h : Counted s ts rs) (k : Kind)
    (hfree : s.tables.get? (handle .table (s.issued + 1)) = none) :
    Counted (opened s k) (ts ++ [s.issued + 1]) rs where
  tables := by
    have hkeys : (SwitchCalls.opened s k).tables.keys =
        s.tables.keys ++ [handle .table (s.issued + 1)] := Registry.keys_insert_of_free _ hfree
    rw [hkeys, h.tables, List.map_append, List.map_singleton]
  rules := h.rules
  distinct := by
    rw [List.append_assoc]
    exact nodup_with_next h.distinct h.issued
  issued := by
    rw [List.append_assoc]
    exact issued_with_next h.issued

theorem Counted.stored (h : Counted s ts rs) (e : Entry)
    (hfree : s.rules.get? (handle .rule (s.issued + 1)) = none) :
    Counted (stored s e) ts (rs ++ [s.issued + 1]) where
  tables := h.tables
  rules := by
    have hkeys : (SwitchCalls.stored s e).rules.keys =
        s.rules.keys ++ [handle .rule (s.issued + 1)] := Registry.keys_insert_of_free _ hfree
    rw [hkeys, h.rules, List.map_append, List.map_singleton]
  distinct := by
    have hold : ((ts ++ rs) ++ []).Nodup := by rw [List.append_nil]; exact h.distinct
    rw [← List.append_assoc]
    refine nodup_with_next hold ?_
    rw [List.append_nil]
    exact h.issued
  issued := by
    rw [← List.append_assoc]
    apply issued_with_next
    rw [List.append_nil]
    exact h.issued

theorem keys_erase_of_numbers {o : Stored} {α : Type} {r : Registry (Handle o) α}
    {ns : List Nat} (h : r.keys = ns.map (handle o)) (key : Handle o) :
    (r.erase key).keys = (ns.filter fun n => handle o n ≠ key).map (handle o) := by
  rw [Registry.keys_erase, h, List.filter_map]
  rfl

theorem Counted.fewer (h : Counted s ts rs) {s' : Switch} {ts' rs' : List Nat}
    (htables : s'.tables.keys = ts'.map (handle .table))
    (hrules : s'.rules.keys = rs'.map (handle .rule)) (hissued : s'.issued = s.issued)
    (hts : ts'.Sublist ts) (hrs : rs'.Sublist rs) : Counted s' ts' rs' where
  tables := htables
  rules := hrules
  distinct := h.distinct.sublist (hts.append hrs)
  issued := by
    intro n hn
    rw [hissued]
    exact h.issued n ((hts.append hrs).subset hn)

/-- Objects with numbers of their own are stored under keys of their own. -/
theorem Counted.nodup_keys (h : Counted s ts rs) (few : s.issued < 2 ^ 26) :
    s.tables.keys.Nodup ∧ s.rules.keys.Nodup := by
  have hbelow : ∀ n ∈ ts ++ rs, n < 2 ^ 26 := by
    intro n hn
    have hbound := h.issued n hn
    omega
  obtain ⟨hts, hrs, -⟩ := List.nodup_append.mp h.distinct
  constructor
  · apply List.Nodup.of_map number
    rw [h.tables, map_number_handle .table fun n hn => hbelow n (List.mem_append_left rs hn)]
    exact hts
  · apply List.Nodup.of_map number
    rw [h.rules, map_number_handle .rule fun n hn => hbelow n (List.mem_append_right ts hn)]
    exact hrs

end Counting

/-- What every call keeps as long as handles are left. -/
structure Sound (s : Switch) : Prop extends Numbered s where
  counted : ∃ ts rs, Counted s ts rs
  housed : ∀ r e, s.rules.get? r = some e →
    ∃ table, s.tables.get? e.table = some table ∧ refusal? table.kind e = none
  bound : ∀ t table, s.tables.get? t = some table → 0 ∉ table.references

theorem sound_empty : Sound Switch.empty where
  toNumbered := numbered_empty
  counted := ⟨[], [], rfl, rfl, List.nodup_nil, fun n hn => absurd hn List.not_mem_nil⟩
  housed r e h := by
    have hnone : Switch.empty.rules.get? r = none := Registry.get?_empty r
    rw [hnone] at h
    cases h
  bound t table h := by
    have hnone : Switch.empty.tables.get? t = none := Registry.get?_empty t
    rw [hnone] at h
    cases h

section Changes
variable {s : Switch}

theorem Sound.rearmed (h : Sound s) (armed : Operation → Option EngineStatus) :
    Sound { s with armed := armed } := by
  obtain ⟨ts, rs, hcounted⟩ := h.counted
  refine ⟨⟨h.tables, h.rules⟩, ⟨ts, rs, ?_⟩, h.housed, h.bound⟩
  exact ⟨hcounted.tables, hcounted.rules, hcounted.distinct, hcounted.issued⟩

theorem Sound.opened (h : Sound s) (k : Kind) (few : s.issued + 1 < 2 ^ 26) :
    Sound (opened s k) := by
  have hfree : s.tables.get? (handle .table (s.issued + 1)) = none :=
    h.toNumbered.tables.get?_next few
  have hget (t : TableHandle) : (SwitchCalls.opened s k).tables.get? t =
      if handle .table (s.issued + 1) = t then some ⟨k, []⟩ else s.tables.get? t :=
    Registry.get?_insert s.tables _ _ t
  obtain ⟨ts, rs, hcounted⟩ := h.counted
  refine ⟨numbered_change h.toNumbered (.opened k), ⟨_, _, hcounted.opened k hfree⟩, ?_, ?_⟩
  · intro r e hr
    obtain ⟨table, hlive, htaken⟩ := h.housed r e hr
    refine ⟨table, ?_, htaken⟩
    have hother : handle .table (s.issued + 1) ≠ e.table := by
      intro heq
      rw [heq, hlive] at hfree
      cases hfree
    rw [hget, if_neg hother]
    exact hlive
  · intro t table htable
    rw [hget] at htable
    by_cases ht : handle .table (s.issued + 1) = t
    · rw [if_pos ht] at htable
      cases htable
      exact List.not_mem_nil
    · rw [if_neg ht] at htable
      exact h.bound t table htable

theorem Sound.closed (h : Sound s) {t : TableHandle} {table : Table}
    (hlive : s.tables.get? t = some table) (hunused : ∀ e ∈ s.rules.values, e.table ≠ t) :
    Sound (closed s t) := by
  have hget (u : TableHandle) : (SwitchCalls.closed s t).tables.get? u =
      if t = u then none else s.tables.get? u := Registry.get?_erase s.tables t u
  obtain ⟨ts, rs, hcounted⟩ := h.counted
  have hkeys := keys_erase_of_numbers hcounted.tables t
  refine ⟨numbered_change h.toNumbered (.closed hlive hunused), ⟨_, _, hcounted.fewer hkeys
    hcounted.rules rfl List.filter_sublist (List.Sublist.refl rs)⟩, ?_, ?_⟩
  · intro r e hr
    obtain ⟨home, hhome, htaken⟩ := h.housed r e hr
    refine ⟨home, ?_, htaken⟩
    have hother : t ≠ e.table := (hunused e (Registry.mem_values_of_get? hr)).symm
    rw [hget, if_neg hother]
    exact hhome
  · intro u other hu
    rw [hget] at hu
    by_cases htu : t = u
    · rw [if_pos htu] at hu
      cases hu
    · rw [if_neg htu] at hu
      exact h.bound u other hu

theorem Sound.stored (h : Sound s) {e : Entry} {table : Table}
    (hlive : s.tables.get? e.table = some table) (htaken : refusal? table.kind e = none)
    (few : s.issued + 1 < 2 ^ 26) : Sound (stored s e) := by
  have hfree : s.rules.get? (handle .rule (s.issued + 1)) = none :=
    h.toNumbered.rules.get?_next few
  obtain ⟨ts, rs, hcounted⟩ := h.counted
  refine ⟨numbered_change h.toNumbered (.stored hlive htaken),
    ⟨_, _, hcounted.stored e hfree⟩, ?_, h.bound⟩
  intro r other hr
  have hget : (SwitchCalls.stored s e).rules.get? r =
      if handle .rule (s.issued + 1) = r then some e else s.rules.get? r :=
    Registry.get?_insert s.rules _ e r
  rw [hget] at hr
  by_cases hnext : handle .rule (s.issued + 1) = r
  · rw [if_pos hnext] at hr
    cases hr
    exact ⟨table, hlive, htaken⟩
  · rw [if_neg hnext] at hr
    exact h.housed r other hr

theorem Sound.withdrawn (h : Sound s) {r : RuleHandle} {e : Entry}
    (hheld : s.rules.get? r = some e) : Sound (withdrawn s r) := by
  obtain ⟨ts, rs, hcounted⟩ := h.counted
  have hkeys := keys_erase_of_numbers hcounted.rules r
  refine ⟨numbered_change h.toNumbered (.withdrawn hheld), ⟨_, _, hcounted.fewer hcounted.tables
    hkeys rfl (List.Sublist.refl ts) List.filter_sublist⟩, ?_, h.bound⟩
  intro other entry hother
  have hget : (SwitchCalls.withdrawn s r).rules.get? other =
      if r = other then none else s.rules.get? other := Registry.get?_erase s.rules r other
  rw [hget] at hother
  by_cases hr : r = other
  · rw [if_pos hr] at hother
    cases hother
  · rw [if_neg hr] at hother
    exact h.housed other entry hother

/-- Binding keeps the kind of every table, so it keeps every rule at home. -/
theorem Sound.extended (h : Sound s) {t : TableHandle} {table : Table} {object : ObjectId}
    (hlive : s.tables.get? t = some table) (hreal : object ≠ 0) :
    Sound (extended s t [object]) := by
  obtain ⟨ts, rs, hcounted⟩ := h.counted
  have hkeys : (SwitchCalls.extended s t [object]).tables.keys = ts.map (handle .table) := by
    rw [extended_of_live [object] hlive, ← hcounted.tables]
    exact Registry.keys_insert_of_get? _ hlive
  have hrules : (SwitchCalls.extended s t [object]).rules.keys = rs.map (handle .rule) := by
    rw [extended_rules]
    exact hcounted.rules
  refine ⟨numbered_change h.toNumbered (.extended hlive hreal), ⟨_, _, hcounted.fewer hkeys hrules
    (extended_issued s t [object]) (List.Sublist.refl ts) (List.Sublist.refl rs)⟩, ?_, ?_⟩
  · intro r e hr
    rw [extended_rules] at hr
    obtain ⟨home, hhome, htaken⟩ := h.housed r e hr
    rw [get?_extended]
    by_cases ht : t = e.table
    · rw [if_pos ht, hhome]
      exact ⟨Table.extended home [object], rfl, htaken⟩
    · rw [if_neg ht]
      exact ⟨home, hhome, htaken⟩
  · intro u other hu
    rw [get?_extended] at hu
    by_cases htu : t = u
    · rw [if_pos htu] at hu
      obtain ⟨old, hold, rfl⟩ := Option.map_eq_some_iff.mp hu
      have hold0 : 0 ∉ old.references := h.bound u old hold
      simpa [Table.extended, hold0] using hreal.symm
    · rw [if_neg htu] at hu
      exact h.bound u other hu

end Changes

theorem sound_change {s s' : Switch} (h : Sound s) (hchange : Change s s')
    (few : s'.issued < 2 ^ 26) : Sound s' := by
  cases hchange with
  | kept => exact h
  | opened k => exact h.opened k few
  | closed hlive hunused => exact h.closed hlive hunused
  | stored hlive htaken => exact h.stored hlive htaken few
  | withdrawn hheld => exact h.withdrawn hheld
  | extended hlive hreal => exact h.extended hlive hreal

theorem sound_of_reachable {s : Switch} (reach : Reachable s) (few : s.issued < 2 ^ 26) :
    Sound s := by
  have hkept : s.issued < 2 ^ 26 → Sound s := by
    refine Reaches.induction (P := fun v => v.issued < 2 ^ 26 → Sound v) reach
      (fun _ => sound_empty) ?_ ?_ ?_
    · intro v op status hv hfew
      exact (hv hfew).rearmed _
    · intro v op hv hfew
      exact (hv hfew).rearmed _
    · intro v w hchange hv hfew
      have hle := hchange.issued_le
      exact sound_change (hv (by omega)) hchange hfew
  exact hkept few

/-- Rules are in live tables that can hold them, tables are bound to real objects only, and
every live object has a number of its own in its handle. -/
structure Consistent (s : Switch) : Prop where
  keys : ∀ r e, s.rules.get? r = some e →
    ∃ table, s.tables.get? e.table = some table ∧ ∀ key ∈ e.keys, key.field.kind = table.kind
  targets : ∀ r e, s.rules.get? r = some e →
    e.verdict.action = .redirect → e.verdict.target ≠ none
  references : ∀ t table, s.tables.get? t = some table → 0 ∉ table.references
  tableHandles : ∀ t ∈ s.tables.keys,
    ∃ n, 1 ≤ n ∧ n ≤ s.issued ∧ t.raw.toNat = 0x11 * 2 ^ 26 + n
  ruleHandles : ∀ r ∈ s.rules.keys,
    ∃ n, 1 ≤ n ∧ n ≤ s.issued ∧ r.raw.toNat = 0x12 * 2 ^ 26 + n
  numbers : (s.tables.keys.map number ++ s.rules.keys.map number).Nodup

theorem handles_of_numbered {o : Stored} {α : Type} {r : Registry (Handle o) α} {issued : Nat}
    (h : NumberedKeys r issued) (few : issued < 2 ^ 26) :
    ∀ key ∈ r.keys, ∃ n, 1 ≤ n ∧ n ≤ issued ∧ key.raw.toNat = mark o * 2 ^ 26 + n := by
  intro key hkey
  have hlive : r.get? key ≠ none := by
    rw [Ne, Registry.get?_eq_none_iff, not_not]
    exact hkey
  obtain ⟨n, hpos, hle, rfl⟩ := h key hlive
  have hn : n < 2 ^ 26 := by omega
  exact ⟨n, hpos, hle, toNat_handle o hn⟩

/-- Whatever a switch was asked to do, it is consistent as long as it has handles left. -/
theorem consistent_of_reachable {s : Switch} (reach : Reachable s) (few : s.issued < 2 ^ 26) :
    Consistent s := by
  have hsound : Sound s := sound_of_reachable reach few
  obtain ⟨ts, rs, hcounted⟩ := hsound.counted
  refine {
    keys := ?_
    targets := ?_
    references := hsound.bound
    tableHandles := handles_of_numbered hsound.tables few
    ruleHandles := handles_of_numbered hsound.rules few
    numbers := ?_
  }
  · intro r e hr
    obtain ⟨table, hlive, htaken⟩ := hsound.housed r e hr
    exact ⟨table, hlive, (refusal?_eq_none_iff.mp htaken).1⟩
  · intro r e hr
    obtain ⟨table, -, htaken⟩ := hsound.housed r e hr
    exact (refusal?_eq_none_iff.mp htaken).2
  · have hbelow : ∀ n ∈ ts ++ rs, n < 2 ^ 26 := by
      intro n hn
      have hbound := hcounted.issued n hn
      omega
    have hts : ∀ n ∈ ts, n < 2 ^ 26 := fun n hn => hbelow n (List.mem_append_left rs hn)
    have hrs : ∀ n ∈ rs, n < 2 ^ 26 := fun n hn => hbelow n (List.mem_append_right ts hn)
    rw [hcounted.tables, hcounted.rules, map_number_handle .table hts,
      map_number_handle .rule hrs]
    exact hcounted.distinct

/-- An entry that sends packets with one time to live to an object. -/
def sentOn : Entry :=
  ⟨handle .table 1, 7, [⟨.ipv4 .ttl, .bits8 64, .bits8 255⟩], .redirect 9⟩

/-- A switch with that entry in a table that is bound to an object, after another table has
come and gone and a failed binding has been spent. -/
def visited : Switch :=
  let opened := ((Switch.empty.answer (.createTable .ipv4)).2.answer (.createTable .mac)).2
  let bound := ((opened.answer (.createRule sentOn)).2.answer (.bind sentOn.table 5)).2
  let failed := ((bound.arm .bind .hwFailure).answer (.bind sentOn.table 6)).2
  (failed.answer (.deleteTable (handle .table 2))).2

theorem consistent_visited :
    (visited.tables.entries = [(handle .table 1, ⟨.ipv4, [5]⟩)] ∧
      visited.rules.entries = [(handle .rule 3, sentOn)]) ∧
    Reachable visited ∧ visited.issued < 2 ^ 26 ∧ Consistent visited := by
  have hopened : Reachable ((Switch.empty.answer (.createTable .ipv4)).2.answer
      (.createTable .mac)).2 := .call (.createTable .mac) (.call (.createTable .ipv4) .refl)
  have hbound := (hopened.call (.createRule sentOn)).call (.bind sentOn.table 5)
  have hreach : Reachable visited :=
    ((hbound.arm .bind .hwFailure).call (.bind sentOn.table 6)).call
      (.deleteTable (handle .table 2))
  have hfew : visited.issued < 2 ^ 26 := by decide
  exact ⟨⟨by decide, by decide⟩, hreach, hfew, consistent_of_reachable hreach hfew⟩

end AccessList.Proofs.LiveObjects
