import AccessList.Proofs.Placements
import AccessList.Proofs.RequestRuns

/-!
What a failure leaves behind. A call that fails spends the failure that is armed for its
operation and changes nothing else, whatever the switch is and whichever of its checks does
not hold. So a session in which no call succeeds, questions apart, leaves the tables, the
rules and the numbers as they were, and only failures of operations that it called are spent.
Each request of a client that fails is such a session, as long as it stored no rule.
-/
namespace AccessList.Proofs.FailedCalls

open Attributes Errors Fields Handles Limits Placements Qualifiers RequestRuns Requests Rules
  Sessions Statuses SwitchCalls Switches Switch Transcripts

/-- A switch with everything as before, but for the failures armed for some operations. -/
structure Spared (s s' : Switch) (ops : List Operation) : Prop where
  tables : s'.tables = s.tables
  rules : s'.rules = s.rules
  issued : s'.issued = s.issued
  armed : OnlySpent s s' ops

theorem Spared.refl (s : Switch) : Spared s s [] where
  tables := rfl
  rules := rfl
  issued := rfl
  armed _ := (if_neg List.not_mem_nil).symm

theorem Spared.trans {s u v : Switch} {ops more : List Operation} (h : Spared s u ops)
    (h' : Spared u v more) : Spared s v (ops ++ more) where
  tables := h'.tables.trans h.tables
  rules := h'.rules.trans h.rules
  issued := h'.issued.trans h.issued
  armed op := by
    rw [h'.armed op, h.armed op]
    by_cases hmore : op ∈ more
    · rw [if_pos hmore, if_pos (List.mem_append_right ops hmore)]
    · simp only [List.mem_append, hmore, or_false, if_false]

/-- A question, or a call that failed. -/
inductive Harmless : Event → Prop
  | asked (t : TableHandle) (answer : Answer (.tableKind t)) : Harmless ⟨.tableKind t, answer⟩
  | failed (c : Call) (cause : EngineError) : Harmless ⟨c, .error cause⟩

/-- The operations whose failures the calls of a session meet. -/
def operations (past : List Event) : List Operation :=
  past.filterMap fun event => operation? event.call

theorem kept_of_harmless {s s' : Switch} {c : Call} {answer : Answer c}
    (h : Performed s c answer s') (hharmless : Harmless ⟨c, answer⟩) : s' = s := by
  cases h with
  | failed cause => rfl
  | asked live => rfl
  | _ => cases hharmless

theorem spared_spent (s : Switch) (c : Call) : Spared s (spent s c) (operation? c).toList where
  tables := by unfold spent; split <;> rfl
  rules := by unfold spent; split <;> rfl
  issued := by unfold spent; split <;> rfl
  armed op := by simp only [spent_armed, Option.mem_toList]

theorem spared_answer {c : Call} {s : Switch} (h : Harmless ⟨c, (s.answer c).1⟩) :
    Spared s (s.answer c).2 (operation? c).toList := by
  rw [kept_of_harmless (performed_answer c s) h]
  exact spared_spent s c

/-- A session that only asks and fails spares the switch. -/
theorem spared_run {α : Type} (p : Session α) (s : Switch)
    (h : ∀ event ∈ transcript engine p s, Harmless event) :
    Spared s (p.run engine s).2 (operations (transcript engine p s)) := by
  induction p generalizing s with
  | done a => exact .refl s
  | ask c next ih =>
    have hfirst := spared_answer (h _ List.mem_cons_self)
    have hrest := ih _ _ fun event hevent => h event (List.mem_cons_of_mem _ hevent)
    have hops : operations (transcript engine (.ask c next) s) =
        (operation? c).toList ++
          operations (transcript engine (next (s.answer c).1) (s.answer c).2) := by
      show List.filterMap _ (_ :: _) = _
      rw [List.filterMap_cons]
      cases operation? c <;> rfl
    rw [hops]
    exact hfirst.trans hrest

/-- Submitting attributes asks a question first. If no rule is stored after that, at most one
failed attempt to store one follows. -/
theorem events_of_unplaced (settings : Settings) (attrs : List Attribute) (s : Switch)
    (h : ∀ e r, ⟨.createRule e, .ok r⟩ ∉ transcript engine (submit settings attrs) s) :
    (∀ event ∈ transcript engine (submit settings attrs) s, Harmless event) ∧
      (operations (transcript engine (submit settings attrs) s) = [] ∨
        operations (transcript engine (submit settings attrs) s) = [.createRule]) := by
  have hdialogue := submission_submit engine settings attrs s
  generalize transcript engine (submit settings attrs) s = past at hdialogue h ⊢
  generalize (submit settings attrs).run engine s = outcome at hdialogue
  cases hdialogue with
  | noTable null => exact ⟨List.forall_mem_nil _, Or.inl rfl⟩
  | unknownTable named real asked =>
    exact ⟨List.forall_mem_singleton.mpr (.asked _ _), Or.inl rfl⟩
  | rejected named real asked failed =>
    exact ⟨List.forall_mem_singleton.mpr (.asked _ _), Or.inl rfl⟩
  | @placed t named real k s' asked rule made bindable =>
    have hplacement := placement_place engine rule s'
    generalize transcript engine (place rule) s' = placing at hplacement h ⊢
    generalize ((place rule).run engine s').1 = result at hplacement
    cases hplacement with
    | refused cause =>
      have hattempt : Harmless ⟨.createRule rule.toEntry, .error cause⟩ := .failed _ _
      refine ⟨List.forall_mem_cons.mpr ⟨.asked _ _, ?_⟩, Or.inr rfl⟩
      exact List.forall_mem_singleton.mpr hattempt
    | placed r => exact absurd (List.mem_cons_of_mem _ List.mem_cons_self) (h _ r)
    | undone r split cause undo =>
      exact absurd (List.mem_cons_of_mem _ List.mem_cons_self) (h _ r)

theorem error_of_passOn {α : Type} {answer : Except EngineError α} {cause : RequestError}
    (h : passOn answer = .error cause) :
    ∃ reason, answer = .error reason ∧ cause = .engine reason := by
  cases answer with
  | ok a => cases h
  | error reason =>
    cases h
    exact ⟨reason, rfl, rfl⟩

/-- A request of one call fails as the call does. -/
theorem spared_of_passOn {c : Call} {s s' : Switch} {cause : RequestError}
    (h : (Session.ask c fun answer => .done (passOn answer)).run engine s = (.error cause, s')) :
    (∃ reason, cause = .engine reason) ∧ Spared s s' (operation? c).toList := by
  rw [Session.run_ask, Session.run_done] at h
  obtain ⟨hcause, rfl⟩ := Prod.mk.inj h
  obtain ⟨reason, hanswer, hreason⟩ := error_of_passOn hcause
  refine ⟨⟨reason, hreason⟩, spared_answer ?_⟩
  have hfailed : (s.answer c).1 = .error reason := hanswer
  rw [hfailed]
  exact .failed c reason

theorem run_kindOf (t : TableHandle) (s : Switch) : ((kindOf t).run engine s).2 = s := by
  have hanswer : engine.answer (.tableKind t) s = s.tableKind t := rfl
  unfold kindOf
  rw [Session.run_ask, hanswer]
  cases hlive : s.tables.get? t with
  | none =>
    rw [tableKind_of_dead hlive]
    rfl
  | some table =>
    rw [tableKind_of_live hlive]
    rfl

/-- What is left of a switch after a failure, for each call of the engine, for each request
of a client and for every session of calls that fail. -/
structure FailuresSpare (s : Switch) : Prop where
  call : ∀ c cause s', s.answer c = (.error cause, s') → Spared s s' (operation? c).toList
  opening : ∀ qs cause s', (openTable qs).run engine s = (.error cause, s') →
    cause = .noFittingKind qs ∧ s' = s ∨
      (∃ reason, cause = .engine reason) ∧ Spared s s' [.createTable]
  closing : ∀ t cause s', (closeTable t).run engine s = (.error cause, s') →
    Spared s s' [.deleteTable]
  asking : ∀ t cause s', (kindOf t).run engine s = (.error cause, s') → s' = s
  preparing : ∀ settings attrs cause s',
    (prepare settings attrs).run engine s = (.error cause, s') →
      s' = s ∧ (submit settings attrs).run engine s = (.error cause, s)
  submitting : ∀ settings attrs cause s',
    (submit settings attrs).run engine s = (.error cause, s') →
      (∀ e r, ⟨.createRule e, .ok r⟩ ∉ transcript engine (submit settings attrs) s) →
        Spared s s' (operations (transcript engine (submit settings attrs) s)) ∧
          (operations (transcript engine (submit settings attrs) s) = [] ∨
            operations (transcript engine (submit settings attrs) s) = [.createRule])
  withdrawing : ∀ r cause s', (withdraw r).run engine s = (.error cause, s') →
    Spared s s' [.deleteRule]
  session : ∀ {α : Type} (p : Session α),
    (∀ event ∈ transcript engine p s, Harmless event) →
      Spared s (p.run engine s).2 (operations (transcript engine p s))

/-- In every state, reachable or not, failures spare the switch. -/
theorem failures_spare (s : Switch) : FailuresSpare s where
  call c cause s' h := by
    have hspared := spared_answer (c := c) (s := s) (by rw [h]; exact .failed c cause)
    rw [h] at hspared
    exact hspared
  opening qs cause s' h := by
    unfold openTable at h
    cases hfit : Roles.fitting? qs with
    | none =>
      rw [hfit] at h
      cases h
      exact Or.inl ⟨rfl, rfl⟩
    | some k =>
      rw [hfit] at h
      exact Or.inr (spared_of_passOn h)
  closing t cause s' h := (spared_of_passOn h).2
  asking t cause s' h := by rw [← run_kindOf t s, h]
  preparing settings attrs cause s' h := by
    have hsubmit : (submit settings attrs).run engine s = (.error cause, s') := by
      unfold submit
      rw [Session.run_bind, h]
      rfl
    have hsame : s' = s := by
      rw [run_prepare] at h
      exact (Prod.mk.inj h).2.symm
    rw [hsame] at hsubmit
    exact ⟨hsame, hsubmit⟩
  submitting settings attrs cause s' h hunplaced := by
    obtain ⟨hharmless, hcalled⟩ := events_of_unplaced settings attrs s hunplaced
    have hspared := spared_run (submit settings attrs) s hharmless
    rw [h] at hspared
    exact ⟨hspared, hcalled⟩
  withdrawing r cause s' h := (spared_of_passOn h).2
  session p h := spared_run p s h

/-- A table with a rule in it. Success is armed against deleting it, and two failures against
storing a rule and binding a table. -/
def guarded : Switch :=
  let opened := (Switch.empty.answer (.createTable .ipv4)).2
  let stored := (opened.answer (.createRule ⟨handle .table 1, 0, [], .nop⟩)).2
  ((stored.arm .deleteTable .success).arm .createRule .tableFull).arm .bind .hwFailure

/-- Attributes that make a rule for the table. -/
def forwarding : List Attribute :=
  [.table (handle .table 1).raw, .field .ttl ⟨.scalar8 64, .scalar8 255⟩, .packet .forward]

/-- The table stays for its rule, and what was armed against deleting it is spent. A second
rule is not stored, for the failure that is armed against that. -/
theorem failures_spare_guarded :
    ((guarded.answer (.deleteTable (handle .table 1))).1 =
        .error (.resourceInUse "ACL table 0x44000001") ∧
      (guarded.answer (.deleteTable (handle .table 1))).2.armed .deleteTable = none ∧
      ((submit standard forwarding).run engine guarded).1 =
        .error (.engine (.tableFull "unknown")) ∧
      ((submit standard forwarding).run engine guarded).2.armed .createRule = none ∧
      ((submit standard forwarding).run engine guarded).2.armed .bind = some .hwFailure) ∧
    FailuresSpare guarded :=
  ⟨⟨by decide, by decide, by decide, by decide, by decide⟩, failures_spare guarded⟩

end AccessList.Proofs.FailedCalls
