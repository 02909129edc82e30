import AccessList.Proofs.Transcripts
import AccessList.Proofs.SwitchCalls

/-!
Two runs of a switch that differ in one armed failure. A call looks at the failure armed for
its own operation and at no other, and looks at it before anything else. So a failure that is
armed goes unseen until its operation is called. There it strikes, once, and the run goes on
as if that call had not been made; success that is armed does not strike at all.
-/
namespace AccessList.Proofs.ArmedFailures

open Errors Fields Handles Registries Rules Sessions Statuses SwitchCalls Switches Switch
  Transcripts

/-- A switch with other failures armed. -/
def rearmed (s : Switch) (armed : Operation → Option EngineStatus) : Switch :=
  { s with armed := armed }

/-- A switch on which no failure is armed. -/
def bare (s : Switch) : Switch := rearmed s fun _ => none

/-- The failure that a call meets, if any. -/
def faultOf (s : Switch) (c : Call) : Except EngineError Unit :=
  match operation? c with
  | none => .ok ()
  | some op => fault s op

/-- What a call does on a bare switch, with the failures left armed that it does not meet. -/
def unhindered (s : Switch) (c : Call) : Answer c × Switch :=
  (((bare s).answer c).1, rearmed ((bare s).answer c).2 (spent s c).armed)

theorem strike_bare (s : Switch) (op : Operation) : (bare s).strike op = (.ok (), bare s) := rfl

/-- Either the failure that is armed decides a call, or none matters to it. -/
theorem answer_eq (c : Call) (s : Switch) :
    s.answer c =
      match faultOf s c with
      | .error cause => (.error cause, spent s c)
      | .ok () => unhindered s c := by
  cases c with
  | createTable k =>
    show s.createTable k = match fault s .createTable with
      | .error cause => (.error cause, s.disarm .createTable)
      | .ok () => (((bare s).createTable k).1,
          rearmed ((bare s).createTable k).2 (s.disarm .createTable).armed)
    unfold createTable
    rw [strike_eq, strike_bare]
    cases fault s .createTable <;> rfl
  | deleteTable t =>
    show s.deleteTable t = match fault s .deleteTable with
      | .error cause => (.error cause, s.disarm .deleteTable)
      | .ok () => (((bare s).deleteTable t).1,
          rearmed ((bare s).deleteTable t).2 (s.disarm .deleteTable).armed)
    unfold deleteTable
    rw [strike_eq, strike_bare]
    cases fault s .deleteTable with
    | error cause => rfl
    | ok _ =>
      dsimp only [bare, rearmed, disarm]
      split
      next => rfl
      next => split <;> rfl
  | tableKind t =>
    show s.tableKind t = (((bare s).tableKind t).1, rearmed ((bare s).tableKind t).2 s.armed)
    unfold tableKind
    dsimp only [bare, rearmed]
    split <;> rfl
  | createRule e =>
    show s.createRule e = match fault s .createRule with
      | .error cause => (.error cause, s.disarm .createRule)
      | .ok () => (((bare s).createRule e).1,
          rearmed ((bare s).createRule e).2 (s.disarm .createRule).armed)
    unfold createRule
    rw [strike_eq, strike_bare]
    cases fault s .createRule with
    | error cause => rfl
    | ok _ =>
      dsimp only [bare, rearmed, disarm]
      split
      next => rfl
      next => split <;> rfl
  | deleteRule r =>
    show s.deleteRule r = match fault s .deleteRule with
      | .error cause => (.error cause, s.disarm .deleteRule)
      | .ok () => (((bare s).deleteRule r).1,
          rearmed ((bare s).deleteRule r).2 (s.disarm .deleteRule).armed)
    unfold deleteRule
    rw [strike_eq, strike_bare]
    cases fault s .deleteRule with
    | error cause => rfl
    | ok _ =>
      dsimp only [bare, rearmed, disarm]
      split <;> rfl
  | bind t object =>
    show s.bind t object = match fault s .bind with
      | .error cause => (.error cause, s.disarm .bind)
      | .ok () => (((bare s).bind t object).1,
          rearmed ((bare s).bind t object).2 (s.disarm .bind).armed)
    unfold Switch.bind
    rw [strike_eq, strike_bare]
    cases fault s .bind with
    | error cause => rfl
    | ok _ =>
      dsimp only [bare, rearmed, disarm]
      split
      next => rfl
      next => split <;> rfl

section Arming
variable {s : Switch} {op : Operation} {status : EngineStatus} {c : Call}

theorem arm_armed (s : Switch) (op : Operation) (status : EngineStatus) (o : Operation) :
    (s.arm op status).armed o = if o = op then some status else s.armed o := rfl

/-- Failures for different operations can be armed in either order. -/
theorem arm_arm {o : Operation} (h : o ≠ op) (s : Switch) (other : EngineStatus) :
    (s.arm op status).arm o other = (s.arm o other).arm op status := by
  simp only [arm]
  congr 1
  funext p
  by_cases ho : p = o
  · have hop : p ≠ op := by rwa [ho]
    simp only [if_pos ho, if_neg hop]
  · simp only [if_neg ho]

theorem disarm_arm (h : s.armed op = none) : (s.arm op status).disarm op = s := by
  have harmed : (fun o => if o = op then none else (s.arm op status).armed o) = s.armed := by
    funext o
    by_cases ho : o = op
    · rw [if_pos ho, ho, h]
    · rw [if_neg ho, arm_armed, if_neg ho]
  show rearmed s _ = s
  rw [harmed]
  rfl

theorem faultOf_arm (h : operation? c ≠ some op) :
    faultOf (s.arm op status) c = faultOf s c := by
  unfold faultOf
  split
  next => rfl
  next o ho =>
    have hop : o ≠ op := fun heq => h (by rw [ho, heq])
    unfold fault
    rw [arm_armed, if_neg hop]

theorem spent_arm (h : operation? c ≠ some op) :
    spent (s.arm op status) c = (spent s c).arm op status := by
  unfold spent
  split
  next => rfl
  next o ho =>
    have hop : op ≠ o := fun heq => h (by rw [ho, heq])
    simp only [disarm, arm]
    congr 1
    funext p
    by_cases hp : p = op
    · have hpo : p ≠ o := by rwa [hp]
      simp only [if_pos hp, if_neg hpo]
    · simp only [if_neg hp]

/-- A call of another operation leaves an armed failure where it is. -/
theorem answer_arm (h : operation? c ≠ some op) :
    (s.arm op status).answer c = ((s.answer c).1, (s.answer c).2.arm op status) := by
  rw [answer_eq, faultOf_arm h, answer_eq c s]
  cases faultOf s c with
  | error cause =>
    simp only
    rw [spent_arm h]
  | ok _ =>
    simp only [unhindered]
    rw [spent_arm h]
    rfl

/-- A failure strikes the call, which does nothing but spend it. -/
theorem answer_struck (hc : operation? c = some op) (free : s.armed op = none)
    (h : status ≠ .success) :
    (s.arm op status).answer c = (.error (.ofStatus status), s) := by
  have hfault : faultOf (s.arm op status) c = .error (.ofStatus status) := by
    simp only [faultOf, hc, fault, arm_armed, if_true, outcome, if_neg h]
  have hspent : spent (s.arm op status) c = s := by
    simp only [spent, hc, disarm_arm free]
  rw [answer_eq, hfault, hspent]

/-- Success that is armed is spent without a trace. -/
theorem answer_spared (hc : operation? c = some op) (free : s.armed op = none) :
    (s.arm op .success).answer c = s.answer c := by
  have hfault : faultOf (s.arm op .success) c = faultOf s c := by
    simp only [faultOf, hc, fault, arm_armed, free, if_true]
    rfl
  have hspent : spent (s.arm op .success) c = spent s c := by
    simp only [spent, hc, disarm_arm free, disarm_of_unarmed free]
  rw [answer_eq, hfault, hspent, answer_eq c s]
  cases faultOf s c with
  | error cause => rfl
  | ok _ =>
    simp only [unhindered, hspent]
    rfl

end Arming

/-- What can be done to a switch from outside: a call, or arming a failure. -/
inductive Use
  | call (c : Call)
  | arm (op : Operation) (status : EngineStatus)

/-- The calls with their answers, and the switch that is left. -/
def perform : List Use → Switch → List Event × Switch
  | [], s => ([], s)
  | .call c :: rest, s =>
    (⟨c, (s.answer c).1⟩ :: (perform rest (s.answer c).2).1, (perform rest (s.answer c).2).2)
  | .arm op status :: rest, s => perform rest (s.arm op status)

theorem perform_append (before after : List Use) (s : Switch) :
    perform (before ++ after) s =
      ((perform before s).1 ++ (perform after (perform before s).2).1,
        (perform after (perform before s).2).2) := by
  induction before generalizing s with
  | nil => rfl
  | cons use rest ih =>
    cases use with
    | call c =>
      show (_ :: (perform (rest ++ after) _).1, (perform (rest ++ after) _).2) = _
      rw [ih]
      rfl
    | arm op status => exact ih _

/-- A failure that is armed for the operation is still waiting after such a use. -/
def Use.LeavesWaiting (op : Operation) : Use → Prop
  | .call c => operation? c ≠ some op
  | .arm o _ => o ≠ op

/-- An armed failure that is left waiting goes unseen. -/
theorem perform_arm {op : Operation} {status : EngineStatus} {uses : List Use}
    (h : ∀ use ∈ uses, use.LeavesWaiting op) (s : Switch) :
    perform uses (s.arm op status) =
      ((perform uses s).1, (perform uses s).2.arm op status) := by
  induction uses generalizing s with
  | nil => rfl
  | cons use rest ih =>
    have hrest := ih fun u hu => h u (List.mem_cons_of_mem _ hu)
    cases use with
    | call c =>
      have hc : operation? c ≠ some op := h _ List.mem_cons_self
      simp only [perform, answer_arm hc, hrest]
    | arm o other =>
      have ho : o ≠ op := h _ List.mem_cons_self
      simp only [perform, arm_arm ho, hrest]

theorem armed_perform {op : Operation} {uses : List Use}
    (h : ∀ use ∈ uses, use.LeavesWaiting op) (s : Switch) :
    (perform uses s).2.armed op = s.armed op := by
  induction uses generalizing s with
  | nil => rfl
  | cons use rest ih =>
    have hrest := ih fun u hu => h u (List.mem_cons_of_mem _ hu)
    cases use with
    | call c =>
      have hc : operation? c ≠ some op := h _ List.mem_cons_self
      simp only [perform, hrest, armed_answer, if_neg hc]
    | arm o other =>
      have ho : op ≠ o := Ne.symm (h (.arm o other) List.mem_cons_self)
      simp only [perform, hrest, arm_armed, if_neg ho]

/-- What arming a failure for an operation at some point of a run makes of the run, when the
operation is not called and nothing else armed for it in what follows at first. -/
structure StrikesOnce (s : Switch) (before quiet : List Use) (op : Operation)
    (status : EngineStatus) : Prop where
  unseen : perform (before ++ .arm op status :: quiet) s =
    ((perform (before ++ quiet) s).1, (perform (before ++ quiet) s).2.arm op status)
  spared : status = .success → ∀ c rest, operation? c = some op →
    perform (before ++ .arm op status :: quiet ++ .call c :: rest) s =
      perform (before ++ quiet ++ .call c :: rest) s
  struck : status ≠ .success → ∀ c rest, operation? c = some op → ∃ later last,
    perform (before ++ quiet ++ rest) s = ((perform (before ++ quiet) s).1 ++ later, last) ∧
      perform (before ++ .arm op status :: quiet ++ .call c :: rest) s =
        ((perform (before ++ quiet) s).1 ++ ⟨c, .error (.ofStatus status)⟩ :: later, last)

/-- In any run a failure that is armed where none was strikes the next call of its operation,
and only that one. -/
theorem armed_failure_strikes_once {s : Switch} {before quiet : List Use} {op : Operation}
    (status : EngineStatus) (free : (perform before s).2.armed op = none)
    (waiting : ∀ use ∈ quiet, use.LeavesWaiting op) :
    StrikesOnce s before quiet op status := by
  have hunseen : perform (before ++ .arm op status :: quiet) s =
      ((perform (before ++ quiet) s).1, (perform (before ++ quiet) s).2.arm op status) := by
    rw [perform_append, perform_append before quiet]
    simp only [perform, perform_arm waiting]
  have hfree : (perform (before ++ quiet) s).2.armed op = none := by
    rw [perform_append]
    exact (armed_perform waiting _).trans free
  refine ⟨hunseen, ?_, ?_⟩
  · rintro rfl c rest hc
    rw [perform_append, hunseen, perform_append (before ++ quiet)]
    simp only [perform, answer_spared hc hfree]
  · intro hstatus c rest hc
    refine ⟨_, _, perform_append (before ++ quiet) rest s, ?_⟩
    rw [perform_append, hunseen]
    simp only [perform, answer_struck hc hfree hstatus]

/-- A table is opened, and storing a rule is made to fail. -/
def opening : List Use := [.call (.createTable .ipv4), .arm .createRule .noMemory]

/-- A rule is stored at the second attempt, and deleting one is made to fail. -/
def storing : List Use :=
  [.call (.createRule ⟨handle .table 1, 0, [], .nop⟩),
    .call (.createRule ⟨handle .table 1, 0, [], .nop⟩), .arm .deleteRule .hwFailure]

/-- The table is bound again, and the rule deleted at the second attempt. -/
def binding : List Use :=
  [.call (.bind (handle .table 1) 6), .call (.deleteRule (handle .rule 2)),
    .call (.deleteRule (handle .rule 2))]

/-- A failure that is armed against binding before the rule is stored strikes the first of two
bindings. The failures armed for the other operations strike as they do without it. -/
theorem armed_failure_strikes_once_binding :
    ((perform (opening ++ .arm .bind .tableFull :: storing ++
          .call (.bind (handle .table 1) 5) :: binding) Switch.empty).2.references
        (handle .table 1) = [6] ∧
      (perform (opening ++ storing ++ .call (.bind (handle .table 1) 5) :: binding)
        Switch.empty).2.references (handle .table 1) = [5, 6]) ∧
    (perform opening Switch.empty).2.armed .bind = none ∧
    (∀ use ∈ storing, use.LeavesWaiting .bind) ∧
    operation? (.bind (handle .table 1) 5) = some .bind ∧
    StrikesOnce Switch.empty opening storing .bind .tableFull ∧
    StrikesOnce Switch.empty opening storing .bind .success := by
  have hfree : (perform opening Switch.empty).2.armed .bind = none := by decide
  have hwaiting : ∀ use ∈ storing, use.LeavesWaiting .bind := by
    simp [storing, Use.LeavesWaiting, operation?]
  exact ⟨⟨by decide, by decide⟩, hfree, hwaiting, rfl,
    armed_failure_strikes_once .tableFull hfree hwaiting,
    armed_failure_strikes_once .success hfree hwaiting⟩

end AccessList.Proofs.ArmedFailures
