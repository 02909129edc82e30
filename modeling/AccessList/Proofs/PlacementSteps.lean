import AccessList.Proofs.Interleavings

/-!
A client that places a rule, step by step, with nothing assumed of the answers. It stores the
rule, binds the table to one object after another, and takes the rule away again after the
first binding that fails. At each step what it has seen fixes what it does next, and when it is
done it has seen one of the dialogues of a placement.
-/
namespace AccessList.Proofs.PlacementSteps

open Errors Fields Handles Interleavings Requests Rules Sessions Transcripts

/-- The event by which a rule comes into being. -/
def made (rule : Rule) (r : RuleHandle) : Event := ⟨.createRule rule.toEntry, .ok r⟩

/-- What a client does once its rule is stored and objects are left to bind. -/
def bindRest (rule : Rule) (r : RuleHandle) (objects : List ObjectId) :
    Session (Except RequestError RuleHandle) :=
  (bindAll rule.table objects).bind fun
    | .ok () => .done (.ok r)
    | .error cause => .ask (.deleteRule r) fun _ => .done (.error (.engine cause))

/-- The stages of a client that places a rule: what it has seen, and what it goes on with. -/
inductive Stage (rule : Rule) : List Event → Session (Except RequestError RuleHandle) → Prop
  | waiting : Stage rule [] (place rule)
  | refused (cause : EngineError) :
      Stage rule [⟨.createRule rule.toEntry, .error cause⟩] (.done (.error (.engine cause)))
  | binding (r : RuleHandle) {before after : List ObjectId}
      (split : rule.references = before ++ after) :
      Stage rule (made rule r :: before.map (bound rule.table)) (bindRest rule r after)
  | undoing (r : RuleHandle) {before after : List ObjectId} {object : ObjectId}
      (split : rule.references = before ++ object :: after) (cause : EngineError) :
      Stage rule
        (made rule r :: before.map (bound rule.table) ++
          [⟨.bind rule.table object, .error cause⟩])
        (.ask (.deleteRule r) fun _ => .done (.error (.engine cause)))
  | undone (r : RuleHandle) {before after : List ObjectId} {object : ObjectId}
      (split : rule.references = before ++ object :: after) (cause : EngineError)
      (undo : Except EngineError Unit) :
      Stage rule
        (made rule r :: before.map (bound rule.table) ++
          [⟨.bind rule.table object, .error cause⟩, ⟨.deleteRule r, undo⟩])
        (.done (.error (.engine cause)))

/-- What a client that places a rule asks for next, after what it has seen. -/
inductive Asks (rule : Rule) : List Event → Call → Prop
  | storing : Asks rule [] (.createRule rule.toEntry)
  | binding (r : RuleHandle) {before after : List ObjectId} {object : ObjectId}
      (split : rule.references = before ++ object :: after) :
      Asks rule (made rule r :: before.map (bound rule.table)) (.bind rule.table object)
  | undoing (r : RuleHandle) {before after : List ObjectId} {object : ObjectId}
      (split : rule.references = before ++ object :: after) (cause : EngineError) :
      Asks rule
        (made rule r :: before.map (bound rule.table) ++
          [⟨.bind rule.table object, .error cause⟩])
        (.deleteRule r)

section Stages
variable {rule : Rule} {events : List Event} {q : Session (Except RequestError RuleHandle)}

theorem Stage.next (h : Stage rule events q) {c : Call}
    {next : Answer c → Session (Except RequestError RuleHandle)} (hask : q = .ask c next)
    (answer : Answer c) : Stage rule (events ++ [⟨c, answer⟩]) (next answer) := by
  cases h with
  | waiting =>
    cases hask
    cases answer with
    | error cause => exact .refused cause
    | ok r =>
      have hsplit : rule.references = [] ++ rule.references := rfl
      exact .binding r hsplit
  | refused cause => cases hask
  | @binding r before after split =>
    cases after with
    | nil => cases hask
    | cons object rest =>
      cases hask
      cases answer with
      | error cause => exact .undoing r split cause
      | ok _ =>
        have hsplit : rule.references = (before ++ [object]) ++ rest := by
          rw [split, List.append_assoc, List.singleton_append]
        have hstage := Stage.binding r hsplit
        rw [List.map_append] at hstage
        exact hstage
  | undoing r split cause =>
    cases hask
    rw [List.append_assoc]
    exact .undone r split cause answer
  | undone r split cause undo => cases hask

theorem Stage.asks (h : Stage rule events q) {c : Call}
    {next : Answer c → Session (Except RequestError RuleHandle)} (hask : q = .ask c next) :
    Asks rule events c := by
  cases h with
  | waiting =>
    cases hask
    exact .storing
  | refused cause => cases hask
  | @binding r before after split =>
    cases after with
    | nil => cases hask
    | cons object rest =>
      cases hask
      exact .binding r split
  | undoing r split cause =>
    cases hask
    exact .undoing r split cause
  | undone r split cause undo => cases hask

theorem Stage.placement (h : Stage rule events q) {a : Except RequestError RuleHandle}
    (hdone : q = .done a) : Placement rule events a := by
  cases h with
  | waiting => cases hdone
  | refused cause =>
    cases hdone
    exact .refused cause
  | @binding r before after split =>
    cases after with
    | nil =>
      cases hdone
      rw [List.append_nil] at split
      rw [← split]
      exact .placed r
    | cons object rest => cases hdone
  | undoing r split cause => cases hdone
  | undone r split cause undo =>
    cases hdone
    exact .undone r split cause undo

theorem stage_of_follows (h : Follows (place rule) events q) : Stage rule events q := by
  induction h with
  | start => exact .waiting
  | ask before answer ih => exact ih.next rfl answer

end Stages

theorem endsWithin_place (rule : Rule) :
    EndsWithin (place rule) (rule.references.length + 2) := by
  have hrest (r : RuleHandle) (objects : List ObjectId) :
      EndsWithin (bindRest rule r objects) (objects.length + 1) := by
    induction objects with
    | nil => exact .done _ _
    | cons object rest ih =>
      refine .ask fun answer => ?_
      cases answer with
      | error cause => exact .ask fun _ => .done _ _
      | ok _ => exact ih
  refine .ask fun answer => ?_
  cases answer with
  | error cause => exact .done _ _
  | ok r => exact hrest r rule.references

end AccessList.Proofs.PlacementSteps
