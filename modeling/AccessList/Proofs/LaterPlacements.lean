import AccessList.Proofs.Histories
import AccessList.Proofs.PreparedRules

/-!
Placing a rule some time after it was prepared. In between the switch may be used in any way,
by sessions or by calls of the engine itself, and failures may be armed. As long as handles
are left the table of the rule keeps its kind until it is deleted, and nothing else comes to
live under its handle. So the rule is placed later exactly if its table was not deleted, and
what the engine checks on its own never stands in the way.
-/
namespace AccessList.Proofs.LaterPlacements

open Attributes Errors Fields Handles Histories Limits Placements PreparedRules Reachability
  Registries RequestRuns Requests Rules Sessions Statuses SwitchCalls Switches Switch
  Transcripts Verdicts

section Later
variable {settings : Settings} {attrs : List Attribute} {s u : Switch} {past : List Event}
  {rule : Rule}

theorem placeable_later (reach : Reachable s) (h : prepared settings attrs s = .ok rule)
    (run : Leads s past u) (few : u.issued ≤ 2 ^ 26) (hkept : deletion rule.table ∉ past) :
    Placeable rule u := by
  have hnow := placeable_of_prepared h
  apply hnow.of_kind
  have hlive : Live rule.table s := by
    obtain ⟨table, htable, -⟩ := hnow.taken
    show s.tables.get? rule.table ≠ none
    rw [htable]
    exact Option.some_ne_none table
  obtain ⟨n, hpos, hn, hhandle⟩ := number_of_live reach.numbered hlive
  rw [hhandle] at hkept ⊢
  exact run.kind_of_kept hpos hn few hkept

theorem dead_later (reach : Reachable s) (run : Leads s past u) (few : u.issued ≤ 2 ^ 26)
    (hdeleted : deletion rule.table ∈ past) : u.tables.get? rule.table = none :=
  not_not.mp (run.dead_of_deleted reach.numbered few hdeleted)

end Later

/-- A rule on a dead table is refused with the handle of the table, unless a failure strikes
before that. -/
theorem run_place_of_dead {rule : Rule} {u : Switch} (h : u.tables.get? rule.table = none) :
    (place rule).run engine u =
      match fault u .createRule with
      | .error cause => (.error (.engine cause), u.disarm .createRule)
      | .ok () => (.error (.engine (.invalidHandle rule.table.raw)), u.disarm .createRule) := by
  have hcreate : u.createRule rule.toEntry = _ := createRule_of_dead h
  cases hfault : fault u .createRule with
  | error cause =>
    rw [hfault] at hcreate
    exact run_place_of_refused hcreate
  | ok _ =>
    rw [hfault] at hcreate
    exact run_place_of_refused hcreate

/-- What comes of placing a rule after some calls have passed. -/
structure PlacedUnlessDeleted (rule : Rule) (past : List Event) (u : Switch) : Prop where
  placed : ¬ FailsNext u .createRule → ¬ FailsNext u .bind →
    ((∃ r, ((place rule).run engine u).1 = .ok r) ↔ deletion rule.table ∉ past)
  deleted : ¬ FailsNext u .createRule → deletion rule.table ∈ past →
    ∃ u', (place rule).run engine u =
        (.error (.engine (.invalidHandle rule.table.raw)), u') ∧
      u'.tables = u.tables ∧ u'.rules = u.rules ∧ u'.issued = u.issued
  causes : ∀ failure, ((place rule).run engine u).1 = .error failure →
    deletion rule.table ∈ past ∧ failure = .engine (.invalidHandle rule.table.raw) ∨
    ∃ cause, failure = .engine cause ∧ Struck u cause

/-- A rule that could be prepared can be placed until its table is deleted. -/
theorem placed_unless_deleted {settings : Settings} {attrs : List Attribute} {s u : Switch}
    {past : List Event} {rule : Rule} (reach : Reachable s)
    (made : ((prepare settings attrs).run engine s).1 = .ok rule)
    (run : Leads ((prepare settings attrs).run engine s).2 past u)
    (few : u.issued < 2 ^ 26) : PlacedUnlessDeleted rule past u := by
  rw [run_prepare] at made run
  have hroom : u.issued ≤ 2 ^ 26 := Nat.le_of_lt few
  have hkept := placeable_later reach made run hroom
  have hgone (hdeleted : deletion rule.table ∈ past) : u.tables.get? rule.table = none :=
    dead_later reach run hroom hdeleted
  refine ⟨?_, ?_, ?_⟩
  · intro hcreate hbind
    constructor
    · rintro ⟨r, hplaced⟩ hdeleted
      rw [run_place_of_dead (hgone hdeleted), fault_of_spared hcreate] at hplaced
      cases hplaced
    · intro hnot
      rw [(hkept hnot).run_place hcreate hbind]
      exact ⟨_, rfl⟩
  · intro hcreate hdeleted
    refine ⟨u.disarm .createRule, ?_, rfl, rfl, rfl⟩
    rw [run_place_of_dead (hgone hdeleted), fault_of_spared hcreate]
  · intro failure hfailed
    by_cases hdeleted : deletion rule.table ∈ past
    · rw [run_place_of_dead (hgone hdeleted)] at hfailed
      cases hfault : fault u .createRule with
      | error cause =>
        rw [hfault] at hfailed
        exact Or.inr ⟨cause, (Except.error.inj hfailed).symm,
          struck_of_fault (Or.inl rfl) hfault⟩
      | ok _ =>
        rw [hfault] at hfailed
        exact Or.inl ⟨hdeleted, (Except.error.inj hfailed).symm⟩
    · exact Or.inr ((hkept hdeleted).struck hfailed)

/-- A switch with a table of IPv4 packets and one of MAC addresses. -/
def twoTables : Switch :=
  ((Switch.empty.answer (.createTable .ipv4)).2.answer (.createTable .mac)).2

/-- One time to live is redirected, on packets that come in at an interface. -/
def redirection : List Attribute :=
  [.table (handle .table 1).raw, .field .ttl ⟨.scalar8 64, .scalar8 255⟩,
    .field .inPort ⟨.object 5, .object 0⟩, .redirect 9]

def redirecting : Rule where
  table := handle .table 1
  kind := .ipv4
  priority := 0
  keys := [⟨.ipv4 .ttl, .bits8 64, .bits8 255⟩]
  verdict := .redirect 9
  references := [5]

/-- Another rule is submitted for the second table. -/
def elsewhere : Session (Except RequestError RuleHandle) :=
  submit ⟨.allowed, 30⟩ [.table (handle .table 2).raw, .field .inPort ⟨.object 6, .object 0⟩]

/-- The switch after that, and after opening a table was made to fail. -/
def used : Switch :=
  (((elsewhere.run engine twoTables).2.arm .createTable .hwFailure).answer
    (.createTable .ipv4)).2

def between : List Event :=
  transcript engine elsewhere twoTables ++ [⟨.createTable .ipv4, .error (.status .hwFailure)⟩]

/-- The switch after the first table was deleted as well and one like it was opened. -/
def replaced : Switch :=
  ((used.answer (.deleteTable (handle .table 1))).2.answer (.createTable .ipv4)).2

def replacing : List Event :=
  [⟨.deleteTable (handle .table 1), .ok ()⟩, ⟨.createTable .ipv4, .ok (handle .table 4)⟩]

/-- The rule is placed before its table is deleted, and is not placed on the table that took
the place of its own. -/
theorem placed_unless_deleted_redirecting :
    (((place redirecting).run engine used).1 = .ok (handle .rule 4) ∧
      ((place redirecting).run engine replaced).1 =
        .error (.engine (.invalidHandle (handle .table 1).raw))) ∧
    Reachable twoTables ∧
    ((prepare standard redirection).run engine twoTables).1 = .ok redirecting ∧
    Leads ((prepare standard redirection).run engine twoTables).2 between used ∧
    used.issued < 2 ^ 26 ∧ PlacedUnlessDeleted redirecting between used ∧
    Leads ((prepare standard redirection).run engine twoTables).2 (between ++ replacing)
      replaced ∧
    replaced.issued < 2 ^ 26 ∧
    PlacedUnlessDeleted redirecting (between ++ replacing) replaced := by
  have hreach : Reachable twoTables := .call (.createTable .mac) (.call (.createTable .ipv4) .refl)
  have hmade : ((prepare standard redirection).run engine twoTables).1 = .ok redirecting := by
    decide
  have hsubmitted := (Leads.refl (s := twoTables)).run elsewhere
  have hused : Leads ((prepare standard redirection).run engine twoTables).2 between used :=
    (hsubmitted.arm .createTable .hwFailure).call (.createTable .ipv4)
  have hdeleted := (hused.call (.deleteTable (handle .table 1))).call (.createTable .ipv4)
  have hreplaced : Leads ((prepare standard redirection).run engine twoTables).2
      (between ++ replacing) replaced := by
    rw [List.append_assoc] at hdeleted
    exact hdeleted
  have hfew : used.issued < 2 ^ 26 := by decide
  have hfewer : replaced.issued < 2 ^ 26 := by decide
  exact ⟨⟨by decide, by decide⟩, hreach, hmade, hused, hfew,
    placed_unless_deleted hreach hmade hused hfew, hreplaced, hfewer,
    placed_unless_deleted hreach hmade hreplaced hfewer⟩

end AccessList.Proofs.LaterPlacements
