import AccessList.Proofs.RuleMaking
import AccessList.Requests

/-!
Everything that passes between a session and an engine: the calls with their answers, in
order. The engine is arbitrary, so any call may fail at any time. A rule that is placed takes
one of three dialogues, and one that is submitted asks for the kind of its table first and
says nothing more unless a rule was made.
-/
namespace AccessList.Proofs.Transcripts

open Attributes Errors Fields Handles Limits Requests RuleMaking Rules Sessions

variable {α β σ : Type}

/-- A call and what the engine answered to it. -/
structure Event where
  call : Call
  answer : Answer call

def transcript (e : Engine σ) : Session α → σ → List Event
  | .done _, _ => []
  | .ask c next, s =>
    ⟨c, (e.answer c s).1⟩ :: transcript e (next (e.answer c s).1) (e.answer c s).2

theorem transcript_bind (e : Engine σ) (p : Session α) (f : α → Session β) (s : σ) :
    transcript e (p.bind f) s =
      transcript e p s ++ transcript e (f (p.run e s).1) (p.run e s).2 := by
  induction p generalizing s with
  | done a => rfl
  | ask c next ih => exact congrArg _ (ih _ _)

/-- The calls of a transcript are those that the session makes. -/
theorem calls_eq_map_transcript (e : Engine σ) (p : Session α) (s : σ) :
    p.calls e s = (transcript e p s).map Event.call := by
  induction p generalizing s with
  | done a => rfl
  | ask c next ih => exact congrArg _ (ih _ _)

/-- A binding that succeeded. -/
def bound (t : TableHandle) (object : ObjectId) : Event := ⟨.bind t object, .ok ()⟩

/-- The dialogues in which a rule is placed, each with its result. Only one in which a
binding fails takes the rule away again, whatever becomes of that last call. -/
inductive Placement (rule : Rule) : List Event → Except RequestError RuleHandle → Prop
  | refused (cause : EngineError) :
      Placement rule [⟨.createRule rule.toEntry, .error cause⟩] (.error (.engine cause))
  | placed (r : RuleHandle) :
      Placement rule
        (⟨.createRule rule.toEntry, .ok r⟩ :: rule.references.map (bound rule.table)) (.ok r)
  | undone (r : RuleHandle) {before after : List ObjectId} {object : ObjectId}
      (split : rule.references = before ++ object :: after) (cause : EngineError)
      (undo : Except EngineError Unit) :
      Placement rule
        (⟨.createRule rule.toEntry, .ok r⟩ :: before.map (bound rule.table) ++
          [⟨.bind rule.table object, .error cause⟩, ⟨.deleteRule r, undo⟩])
        (.error (.engine cause))

/-- Objects are bound in order, up to and including the first that fails. -/
theorem bindAll_cases (e : Engine σ) (t : TableHandle) (objects : List ObjectId) (s : σ) :
    (((bindAll t objects).run e s).1 = .ok () ∧
      transcript e (bindAll t objects) s = objects.map (bound t)) ∨
    ∃ before object after cause s', objects = before ++ object :: after ∧
      ((bindAll t before).run e s).1 = .ok () ∧
      e.answer (.bind t object) ((bindAll t before).run e s).2 = (.error cause, s') ∧
      (bindAll t objects).run e s = (.error cause, s') ∧
      transcript e (bindAll t objects) s =
        before.map (bound t) ++ [⟨.bind t object, .error cause⟩] := by
  induction objects generalizing s with
  | nil => exact Or.inl ⟨rfl, rfl⟩
  | cons object rest ih =>
    obtain ⟨answer, u, hanswer⟩ : ∃ answer u, e.answer (.bind t object) s = (answer, u) :=
      ⟨_, _, rfl⟩
    cases answer with
    | error cause =>
      refine Or.inr ⟨[], object, rest, cause, u, rfl, rfl, hanswer, ?_, ?_⟩
      · simp only [bindAll, Session.run_ask, hanswer, Session.run_done]
      · simp only [bindAll, transcript, hanswer, List.map_nil, List.nil_append]
    | ok done =>
      have hrun (objects : List ObjectId) :
          (bindAll t (object :: objects)).run e s = (bindAll t objects).run e u := by
        simp only [bindAll, Session.run_ask, hanswer]
      have hevents : transcript e (bindAll t (object :: rest)) s =
          bound t object :: transcript e (bindAll t rest) u := by
        simp only [bindAll, transcript, hanswer]
        rfl
      rw [hrun, hevents]
      rcases ih u with ⟨hok, htail⟩ | ⟨before, failing, after, cause, s', rfl, h⟩
      · exact Or.inl ⟨hok, by rw [htail, List.map_cons]⟩
      · obtain ⟨hbefore, hfailed, hstopped, htail⟩ := h
        refine Or.inr ⟨object :: before, failing, after, cause, s', rfl, ?_⟩
        rw [hrun, htail]
        exact ⟨hbefore, hfailed, hstopped, rfl⟩

theorem placement_place (e : Engine σ) (rule : Rule) (s : σ) :
    Placement rule (transcript e (place rule) s) ((place rule).run e s).1 := by
  unfold place
  rw [transcript, Session.run_ask]
  cases hanswer : (e.answer (.createRule rule.toEntry) s).1 with
  | error cause => exact .refused cause
  | ok r =>
    simp only [transcript_bind, Session.run_bind]
    rcases bindAll_cases e rule.table rule.references
        (e.answer (.createRule rule.toEntry) s).2 with
      ⟨hok, hevents⟩ | ⟨before, object, after, cause, s', hsplit, -, -, hrun, hevents⟩
    · rw [hevents, hok]
      simp only [transcript, List.append_nil, Session.run_done]
      exact .placed r
    · rw [hevents, hrun]
      simp only [transcript, List.append_assoc]
      exact .undone r hsplit cause _

/-- The last table that attributes name: zero if they name none, or the null table last. -/
def lastTable (attrs : List Attribute) : UInt64 :=
  (attrs.filterMap Attribute.table?).getLast?.getD 0

theorem tableOf_of_null {attrs : List Attribute} (h : lastTable attrs = 0) :
    tableOf attrs = .error .noTable := by
  unfold lastTable at h
  unfold tableOf
  cases hlast : (attrs.filterMap Attribute.table?).getLast? with
  | none => rfl
  | some raw =>
    have hraw : raw = 0 := by simpa [hlast] using h
    simp [hraw, Handle.ofRaw?]

theorem tableOf_of_named {attrs : List Attribute} (h : lastTable attrs ≠ 0) :
    tableOf attrs = .ok ⟨lastTable attrs⟩ := by
  unfold lastTable at h ⊢
  unfold tableOf
  cases hlast : (attrs.filterMap Attribute.table?).getLast? with
  | none => simp [hlast] at h
  | some raw =>
    have hraw : raw ≠ 0 := by simpa [hlast] using h
    simp [hraw, Handle.ofRaw?]

/-- The dialogues in which attributes are submitted to an engine in some state, each with its
result and the state it leaves. -/
inductive Submission (e : Engine σ) (settings : Settings) (attrs : List Attribute) (s : σ) :
    List Event → Except RequestError RuleHandle × σ → Prop
  | noTable (null : lastTable attrs = 0) :
      Submission e settings attrs s [] (.error .noTable, s)
  | unknownTable {t : TableHandle} (named : lastTable attrs = t.raw) (real : t.raw ≠ 0)
      {cause : EngineError} {s' : σ} (asked : e.answer (.tableKind t) s = (.error cause, s')) :
      Submission e settings attrs s [⟨.tableKind t, .error cause⟩]
        (.error (.unknownTable t cause), s')
  | rejected {t : TableHandle} (named : lastTable attrs = t.raw) (real : t.raw ≠ 0)
      {k : Kind} {s' : σ} (asked : e.answer (.tableKind t) s = (.ok k, s'))
      {cause : RequestError} (failed : Rule.ofAttributes settings t k attrs = .error cause) :
      Submission e settings attrs s [⟨.tableKind t, .ok k⟩] (.error cause, s')
  | placed {t : TableHandle} (named : lastTable attrs = t.raw) (real : t.raw ≠ 0)
      {k : Kind} {s' : σ} (asked : e.answer (.tableKind t) s = (.ok k, s'))
      {rule : Rule} (made : Rule.ofAttributes settings t k attrs = .ok rule)
      (bindable : 0 ∉ rule.references) :
      Submission e settings attrs s
        (⟨.tableKind t, .ok k⟩ :: transcript e (place rule) s') ((place rule).run e s')

/-- What a client does once the engine has answered for the kind of the table. -/
def continued (settings : Settings) (attrs : List Attribute) (t : TableHandle) :
    Except EngineError Kind → Session (Except RequestError RuleHandle)
  | .error cause => .done (.error (.unknownTable t cause))
  | .ok k =>
    match Rule.ofAttributes settings t k attrs with
    | .error cause => .done (.error cause)
    | .ok rule => place rule

theorem submit_of_null (settings : Settings) {attrs : List Attribute}
    (h : lastTable attrs = 0) : submit settings attrs = .done (.error .noTable) := by
  simp only [submit, prepare, tableOf_of_null h, Session.bind_done]

theorem submit_of_named (settings : Settings) {attrs : List Attribute} {t : TableHandle}
    (hnamed : lastTable attrs = t.raw) (hreal : t.raw ≠ 0) :
    submit settings attrs = .ask (.tableKind t) (continued settings attrs t) := by
  have htable : tableOf attrs = .ok t := by
    rw [tableOf_of_named (by rwa [hnamed]), hnamed]
  simp only [submit, prepare, htable, kindOf, Session.bind_ask]
  congr 1
  funext answer
  cases answer with
  | error cause => rfl
  | ok k =>
    cases hmade : Rule.ofAttributes settings t k attrs with
    | error cause => simp only [Session.bind_done, continued, hmade]
    | ok rule => simp only [Session.bind_done, continued, hmade]

theorem submission_submit (e : Engine σ) (settings : Settings) (attrs : List Attribute)
    (s : σ) :
    Submission e settings attrs s (transcript e (submit settings attrs) s)
      ((submit settings attrs).run e s) := by
  by_cases hnull : lastTable attrs = 0
  · rw [submit_of_null settings hnull]
    exact .noTable hnull
  · obtain ⟨t, hnamed⟩ : ∃ t : TableHandle, lastTable attrs = t.raw := ⟨⟨_⟩, rfl⟩
    have hreal : t.raw ≠ 0 := by rwa [← hnamed]
    rw [submit_of_named settings hnamed hreal, transcript, Session.run_ask]
    obtain ⟨answer, s', hasked⟩ : ∃ answer s', e.answer (.tableKind t) s = (answer, s') :=
      ⟨_, _, rfl⟩
    rw [hasked]
    cases answer with
    | error cause => exact .unknownTable hnamed hreal hasked
    | ok k =>
      simp only [continued]
      cases hmade : Rule.ofAttributes settings t k attrs with
      | error cause => exact .rejected hnamed hreal hasked hmade
      | ok rule => exact .placed hnamed hreal hasked hmade (references_of_ofAttributes hmade)

end AccessList.Proofs.Transcripts
