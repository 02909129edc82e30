import AccessList.Proofs.Transcripts
import Mathlib.Data.List.Induction
import Mathlib.Logic.Function.Basic

/-!
Sessions of several clients with one engine. A schedule says whose turn it is; a client that
has its turn makes its next call and is answered at once, so every order in which the calls
of the clients can interleave is that of a schedule. What a client has seen of it are its own
calls and their answers, and its session goes on from them as it would alone, with whatever
engine gives these answers.
-/
namespace AccessList.Proofs.Interleavings

open Sessions Transcripts

variable {ι α β γ σ : Type} [DecidableEq ι]

/-- What is left of a session after some calls and their answers. -/
inductive Follows (p : Session α) : List Event → Session α → Prop
  | start : Follows p [] p
  | ask {events : List Event} {c : Call} {next : Answer c → Session α}
      (before : Follows p events (.ask c next)) (answer : Answer c) :
      Follows p (events ++ [⟨c, answer⟩]) (next answer)

/-- How far the clients of an engine have come, with all calls so far and who made them. -/
structure Progress (ι α σ : Type) where
  sessions : ι → Session α
  state : σ
  log : List (ι × Event)

/-- After the call of a client was answered. -/
def answered (e : Engine σ) (u : Progress ι α σ) (i : ι) (c : Call)
    (next : Answer c → Session α) : Progress ι α σ where
  sessions := Function.update u.sessions i (next (e.answer c u.state).1)
  state := (e.answer c u.state).2
  log := u.log ++ [(i, ⟨c, (e.answer c u.state).1⟩)]

/-- One client has its turn. A client that is done lets it pass. -/
def advance (e : Engine σ) (u : Progress ι α σ) (i : ι) : Progress ι α σ :=
  match u.sessions i with
  | .done _ => u
  | .ask c next => answered e u i c next

def interleave (e : Engine σ) (sessions : ι → Session α) (s : σ) (schedule : List ι) :
    Progress ι α σ :=
  schedule.foldl (advance e) ⟨sessions, s, []⟩

/-- The part of one client in a list that names a client with every element. -/
def own (i : ι) (log : List (ι × β)) : List β := (log.filter (·.1 = i)).map Prod.snd

theorem mem_own {i : ι} {log : List (ι × β)} {b : β} : b ∈ own i log ↔ (i, b) ∈ log := by
  simp [own]

omit [DecidableEq ι] in
theorem mem_map_snd {log : List (ι × β)} {b : β} :
    b ∈ log.map Prod.snd ↔ ∃ i, (i, b) ∈ log := by
  simp

theorem own_append (i : ι) (before after : List (ι × β)) :
    own i (before ++ after) = own i before ++ own i after := by
  rw [own, own, own, List.filter_append, List.map_append]

theorem own_cons (i j : ι) (b : β) (rest : List (ι × β)) :
    own i ((j, b) :: rest) = if j = i then b :: own i rest else own i rest := by
  by_cases hj : j = i <;> simp [own, hj]

theorem own_self (i : ι) (b : β) : own i [(i, b)] = [b] :=
  (own_cons i i b []).trans (if_pos rfl)

theorem own_of_ne {i j : ι} (h : j ≠ i) (b : β) : own i [(j, b)] = [] :=
  (own_cons i j b []).trans (if_neg h)

/-- A list made of one list for every client, each in its order. -/
def Merges (parts : ι → List β) (merged : List β) : Prop :=
  ∃ log : List (ι × β), log.map Prod.snd = merged ∧ ∀ i, own i log = parts i

/-- What is picked from a log merges what is picked from the parts of the clients. -/
theorem merges_filterMap (f : β → Option γ) (log : List (ι × β)) :
    Merges (fun i => (own i log).filterMap f) ((log.map Prod.snd).filterMap f) := by
  refine ⟨log.filterMap fun x => (f x.2).map (Prod.mk x.1), ?_, fun i => ?_⟩
  · induction log with
    | nil => rfl
    | cons x rest ih =>
      rw [List.filterMap_cons, List.map_cons, List.filterMap_cons]
      cases f x.2 with
      | none => exact ih
      | some c => exact congrArg (c :: ·) ih
  · induction log with
    | nil => rfl
    | cons x rest ih =>
      obtain ⟨j, b⟩ := x
      by_cases hj : j = i
      · cases hb : f b <;> simp [own_cons, hj, hb, ih]
      · cases hb : f b <;> simp [own_cons, hj, hb, ih]

section Schedules
variable (e : Engine σ) (sessions : ι → Session α) (s : σ)

theorem interleave_concat (schedule : List ι) (i : ι) :
    interleave e sessions s (schedule ++ [i]) =
      advance e (interleave e sessions s schedule) i := by
  simp only [interleave, List.foldl_append, List.foldl_cons, List.foldl_nil]

/-- A turn makes one call, unless the client is done. -/
theorem interleave_turn (schedule : List ι) (i : ι) :
    ((∃ a, (interleave e sessions s schedule).sessions i = .done a) ∧
      interleave e sessions s (schedule ++ [i]) = interleave e sessions s schedule) ∨
    ∃ c next, (interleave e sessions s schedule).sessions i = .ask c next ∧
      interleave e sessions s (schedule ++ [i]) =
        answered e (interleave e sessions s schedule) i c next := by
  rw [interleave_concat, advance]
  cases h : (interleave e sessions s schedule).sessions i with
  | done a => exact Or.inl ⟨⟨a, rfl⟩, rfl⟩
  | ask c next => exact Or.inr ⟨c, next, rfl, rfl⟩

/-- What holds at the start and is kept by every call that a client makes holds in the end. -/
theorem interleave_induction {P : Progress ι α σ → Prop} (start : P ⟨sessions, s, []⟩)
    (turn : ∀ schedule i c next, (interleave e sessions s schedule).sessions i = .ask c next →
      P (interleave e sessions s schedule) →
      P (answered e (interleave e sessions s schedule) i c next))
    (schedule : List ι) : P (interleave e sessions s schedule) := by
  induction schedule using List.reverseRecOn with
  | nil => exact start
  | append_singleton schedule i ih =>
    rcases interleave_turn e sessions s schedule i with ⟨-, hsame⟩ | ⟨c, next, hask, hturn⟩
    · rw [hsame]
      exact ih
    · rw [hturn]
      exact turn schedule i c next hask ih

/-- Every client goes on from its own calls. -/
theorem follows_own (schedule : List ι) (i : ι) :
    Follows (sessions i) (own i (interleave e sessions s schedule).log)
      ((interleave e sessions s schedule).sessions i) := by
  apply interleave_induction e sessions s
    (P := fun u => Follows (sessions i) (own i u.log) (u.sessions i))
  · exact .start
  · intro schedule j c next hask ih
    by_cases hj : j = i
    · subst hj
      rw [hask] at ih
      simp only [answered, own_append, own_self, Function.update_self]
      exact ih.ask _
    · simp only [answered, own_append, own_of_ne hj, List.append_nil,
        Function.update_of_ne (Ne.symm hj)]
      exact ih

/-- The turn in which a client made a call, after those of a schedule. -/
structure Turn (schedule : List ι) (before : List (ι × Event)) (i : ι) (ev : Event) : Prop where
  log : (interleave e sessions s schedule).log = before
  asks : ∃ next, (interleave e sessions s schedule).sessions i = .ask ev.call next
  answer : ev.answer = (e.answer ev.call (interleave e sessions s schedule).state).1

/-- Every call in the log was made in a turn of the client that it names. -/
theorem exists_turn {schedule : List ι} {before after : List (ι × Event)} {i : ι} {ev : Event}
    (h : (interleave e sessions s schedule).log = before ++ (i, ev) :: after) :
    ∃ earlier later, schedule = earlier ++ later ∧ Turn e sessions s earlier before i ev := by
  induction schedule using List.reverseRecOn generalizing after with
  | nil => cases before <;> cases h
  | append_singleton schedule j ih =>
    have hearlier {rest : List (ι × Event)}
        (h : (interleave e sessions s schedule).log = before ++ (i, ev) :: rest) :
        ∃ earlier later, schedule ++ [j] = earlier ++ later ∧
          Turn e sessions s earlier before i ev := by
      obtain ⟨earlier, later, hschedule, hturn⟩ := ih h
      exact ⟨earlier, later ++ [j], by rw [hschedule, List.append_assoc], hturn⟩
    rcases interleave_turn e sessions s schedule j with ⟨-, hsame⟩ | ⟨c, next, hask, hturn⟩
    · rw [hsame] at h
      exact hearlier h
    · rw [hturn] at h
      rcases List.eq_nil_or_concat after with rfl | ⟨rest, last, rfl⟩
      · -- It is the last call.
        obtain ⟨hlog, hlast⟩ := List.append_inj' h rfl
        cases hlast
        exact ⟨schedule, [i], rfl, hlog, ⟨next, hask⟩, rfl⟩
      · rw [List.concat_eq_append, ← List.cons_append, ← List.append_assoc] at h
        exact hearlier (List.append_inj' h rfl).1

end Schedules

/-- Whatever it is answered, a session is done after so many calls. -/
inductive EndsWithin : Session α → Nat → Prop
  | done (a : α) (n : Nat) : EndsWithin (.done a) n
  | ask {c : Call} {next : Answer c → Session α} {n : Nat}
      (rest : ∀ answer, EndsWithin (next answer) n) : EndsWithin (.ask c next) (n + 1)

/-- Every turn of a client brings it nearer to its end, and the others do not hold it up. -/
theorem endsWithin_left (e : Engine σ) (sessions : ι → Session α) (s : σ) {i : ι} {n : Nat}
    (h : EndsWithin (sessions i) n) (schedule : List ι) :
    EndsWithin ((interleave e sessions s schedule).sessions i) (n - schedule.count i) := by
  induction schedule using List.reverseRecOn with
  | nil => exact h
  | append_singleton schedule j ih =>
    rw [List.count_append]
    by_cases hj : j = i
    · subst hj
      rcases interleave_turn e sessions s schedule j with
        ⟨⟨a, hdone⟩, hsame⟩ | ⟨c, next, hask, hturn⟩
      · rw [hsame, hdone]
        exact .done a _
      · rw [hask] at ih
        obtain ⟨m, hm⟩ : ∃ m, m = n - schedule.count j := ⟨_, rfl⟩
        rw [← hm] at ih
        cases ih with
        | @ask _ _ left hrest =>
          have hleft : n - (schedule.count j + List.count j [j]) = left := by
            rw [List.count_singleton_self]
            omega
          rw [hturn, hleft]
          simp only [answered, Function.update_self]
          exact hrest _
    · have hcount : List.count i [j] = 0 := by simp [hj]
      rw [hcount, Nat.add_zero]
      rcases interleave_turn e sessions s schedule j with ⟨-, hsame⟩ | ⟨c, next, hask, hturn⟩
      · rw [hsame]
        exact ih
      · rw [hturn]
        simp only [answered, Function.update_of_ne (Ne.symm hj)]
        exact ih

/-- A client that has its turn often enough is done. -/
theorem done_of_turns (e : Engine σ) (sessions : ι → Session α) (s : σ) {i : ι} {n : Nat}
    (h : EndsWithin (sessions i) n) {schedule : List ι} (hturns : n ≤ schedule.count i) :
    ∃ a, (interleave e sessions s schedule).sessions i = .done a := by
  have hleft := endsWithin_left e sessions s h schedule
  rw [Nat.sub_eq_zero_of_le hturns] at hleft
  cases hdone : (interleave e sessions s schedule).sessions i with
  | done a => exact ⟨a, rfl⟩
  | ask c next =>
    rw [hdone] at hleft
    cases hleft

end AccessList.Proofs.Interleavings
