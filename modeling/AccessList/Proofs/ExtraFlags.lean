import AccessList.CommandLine

/-!
Putting one more flag on a command line. Arguments are taken in one by one, and of what was
given so far only a flag that is given again makes a difference to the flag. So a command that
allows rules without keys by a flag, wherever the flag stands among the arguments, is the
command without the flag in everything else.
-/
namespace AccessList.Proofs.ExtraFlags

open CommandLine

/-- The same arguments with rules without keys allowed. -/
def allowing (g : Given) : Given :=
  { g with flags := fun f => if f = .allowWildcard then true else g.flags f }

/-- The same invocation with rules without keys allowed. -/
def allowed (i : Invocation) : Invocation := { i with allowWildcard := true }

def allowingStep : Step → Step
  | .inl c => .inl c
  | .inr (g, awaiting) => .inr (allowing g, awaiting)

theorem allowing_eq_self {g : Given} : allowing g = g ↔ g.flags .allowWildcard = true := by
  constructor
  · intro h
    rw [← h]
    rfl
  · intro h
    have hflags : (allowing g).flags = g.flags := by
      funext f
      by_cases hf : f = .allowWildcard
      · rw [hf, h]
        rfl
      · exact if_neg hf
    exact congrArg (fun flags => { g with flags := flags }) hflags

theorem setOption_allowing (g : Given) (o : ValueOption) (value : String) :
    (allowing g).setOption o value = (g.setOption o value).map allowing := by
  unfold Given.setOption
  rw [apply_ite (Option.map allowing)]
  rfl

theorem setScenario_allowing (g : Given) (name : String) :
    (allowing g).setScenario name = (g.setScenario name).map allowing := by
  unfold Given.setScenario
  rw [apply_ite (Option.map allowing)]
  rfl

theorem setFlag_allowing (g : Given) {f : Flag} (h : f ≠ .allowWildcard) :
    (allowing g).setFlag f = (g.setFlag f).map allowing := by
  have hflag : (allowing g).flags f = g.flags f := if_neg h
  unfold Given.setFlag
  rw [hflag]
  split
  next => rfl
  next =>
    simp only [Option.map_some, allowing, Option.some.injEq]
    congr 1
    funext p
    by_cases hp : p = f
    · have hne : p ≠ .allowWildcard := by rwa [hp]
      simp only [if_pos hp, if_neg hne]
    · simp only [if_neg hp]

theorem given_of_setFlag {g next : Given} (h : g.setFlag .allowWildcard = some next) :
    next = allowing g := by
  unfold Given.setFlag at h
  split at h
  next => cases h
  next =>
    cases h
    rfl

theorem take_map_allowing (g : Option Given) :
    Step.take (g.map allowing) = allowingStep (.take g) := by
  cases g <;> rfl

theorem take_ne_run (g : Option Given) (i : Invocation) : Step.take g ≠ .inl (.run i) := by
  cases g <;> exact nofun

theorem take_eq_inr {g : Option Given} {next : Given} {expected : Awaiting} :
    Step.take g = .inr (next, expected) ↔ g = some next ∧ expected = .anything := by
  cases g with
  | none => exact ⟨nofun, nofun⟩
  | some g =>
    constructor
    · rintro ⟨⟩
      exact ⟨rfl, rfl⟩
    · rintro ⟨⟨⟩, rfl⟩
      rfl

/-- No letter stands for the flag. -/
theorem letters_allowing (g : Given) (cs : List Char) :
    letters (allowing g) cs = allowingStep (letters g cs) := by
  induction cs generalizing g with
  | nil => rfl
  | cons c rest ih =>
    unfold letters
    cases hletter : letter? c with
    | none => rfl
    | some letter =>
      cases letter with
      | version => rfl
      | help => rfl
      | flag f =>
        have hf : f ≠ .allowWildcard := by
          rintro rfl
          unfold letter? at hletter
          split at hletter <;> cases hletter
        simp only [setFlag_allowing g hf]
        cases g.setFlag f with
        | none => rfl
        | some next => exact ih next
      | option o =>
        simp only [setOption_allowing, take_map_allowing]
        split <;> rfl

/-- A word goes on as without the flag, unless it is the flag, which may be given once. -/
theorem word_allowing (g : Given) (cs : List Char) :
    word (allowing g) cs = allowingStep (word g cs) ∨
      word (allowing g) cs = .inl .misuse ∧
        word g cs = .take (g.setFlag .allowWildcard) := by
  unfold word
  cases hword : word? (String.ofList (cutEquals cs).1) with
  | none => exact Or.inl rfl
  | some letter =>
    cases hvalue : (cutEquals cs).2 with
    | none =>
      cases letter with
      | version => exact Or.inl rfl
      | help => exact Or.inl rfl
      | option o => exact Or.inl rfl
      | flag f =>
        by_cases hf : f = .allowWildcard
        · subst hf
          exact Or.inr ⟨rfl, rfl⟩
        · exact Or.inl ((congrArg Step.take (setFlag_allowing g hf)).trans (take_map_allowing _))
    | some value =>
      cases letter with
      | version => exact Or.inl rfl
      | help => exact Or.inl rfl
      | flag f => exact Or.inl rfl
      | option o =>
        exact Or.inl ((congrArg Step.take (setOption_allowing g o _)).trans (take_map_allowing _))

theorem argument_allowing (g : Given) (awaiting : Awaiting) (arg : String) :
    argument (allowing g) awaiting arg = allowingStep (argument g awaiting arg) ∨
      argument (allowing g) awaiting arg = .inl .misuse ∧
        argument g awaiting arg = .take (g.setFlag .allowWildcard) := by
  unfold argument
  split
  next =>
    rw [setScenario_allowing]
    cases g.setScenario arg <;> exact Or.inl rfl
  next => exact Or.inl rfl
  next => exact Or.inl (by rw [setOption_allowing, take_map_allowing])
  next => exact Or.inl rfl
  next => exact word_allowing g _
  next => exact Or.inl (letters_allowing g _)
  next => exact Or.inl (by rw [setScenario_allowing, take_map_allowing])

theorem letters_ne_run (g : Given) (cs : List Char) (i : Invocation) :
    letters g cs ≠ .inl (.run i) := by
  induction cs generalizing g with
  | nil => exact nofun
  | cons c rest ih =>
    unfold letters
    split
    next => exact nofun
    next => exact nofun
    next => exact nofun
    next =>
      split
      next => exact nofun
      next next _ => exact ih next
    next =>
      split
      next => exact nofun
      next => exact take_ne_run _ i
      next => exact take_ne_run _ i

theorem word_ne_run (g : Given) (cs : List Char) (i : Invocation) :
    word g cs ≠ .inl (.run i) := by
  unfold word
  split
  next => exact nofun
  next => exact nofun
  next => exact take_ne_run _ i
  next => exact nofun
  next => exact take_ne_run _ i
  next => exact nofun

/-- No argument makes a run by itself. -/
theorem argument_ne_run (g : Given) (awaiting : Awaiting) (arg : String) (i : Invocation) :
    argument g awaiting arg ≠ .inl (.run i) := by
  unfold argument
  split
  next => split <;> exact nofun
  next => exact nofun
  next => exact take_ne_run _ i
  next => exact nofun
  next => exact word_ne_run g _ i
  next => exact letters_ne_run g _ i
  next => exact take_ne_run _ i

/-- An argument that does not end a command is taken in. -/
theorem argument_of_run {g : Given} {awaiting : Awaiting} {arg : String} {rest : List String}
    {i : Invocation} (h : commandFrom g awaiting (arg :: rest) = .run i) :
    ∃ next expected, argument g awaiting arg = .inr (next, expected) ∧
      commandFrom next expected rest = .run i := by
  unfold commandFrom at h
  split at h
  next c hstep =>
    rw [h] at hstep
    exact absurd hstep (argument_ne_run g awaiting arg i)
  next next expected hstep => exact ⟨next, expected, hstep, h⟩

/-- What is left when the arguments end. -/
theorem command_of_run {g : Given} {awaiting : Awaiting} {i : Invocation}
    (h : commandFrom g awaiting [] = .run i) :
    (∀ o, awaiting ≠ .value o) ∧ g.command = .run i := by
  cases awaiting with
  | value o => cases h
  | anything => exact ⟨nofun, h⟩
  | operand => exact ⟨nofun, h⟩

theorem command_eq_run {g : Given} {i : Invocation} :
    g.command = .run i ↔ g.scenario = some i.scenario ∧
      i = ⟨i.scenario, g.options .config, g.flags .allowWildcard, g.flags .dryRun,
        g.flags .pretty⟩ := by
  unfold Given.command
  constructor
  · intro h
    split at h
    next => cases h
    next name hname =>
      cases h
      exact ⟨hname, rfl⟩
  · rintro ⟨hname, hi⟩
    rw [hname, hi]

/-- Once the flag is given the command has it. -/
theorem allowed_of_run {g : Given} {awaiting : Awaiting} {args : List String} {i : Invocation}
    (hg : g.flags .allowWildcard = true) (h : commandFrom g awaiting args = .run i) :
    i.allowWildcard = true := by
  induction args generalizing g awaiting with
  | nil =>
    obtain ⟨-, hi⟩ := command_eq_run.mp (command_of_run h).2
    rw [hi]
    exact hg
  | cons arg rest ih =>
    obtain ⟨next, expected, hstep, hrest⟩ := argument_of_run h
    rcases argument_allowing g awaiting arg with hkeeps | ⟨hmisuse, -⟩
    · rw [allowing_eq_self.mpr hg, hstep] at hkeeps
      have hnext : next = allowing next := congrArg Prod.fst (Sum.inr.inj hkeeps)
      exact ih (allowing_eq_self.mp hnext.symm) hrest
    · rw [allowing_eq_self.mpr hg, hstep] at hmisuse
      cases hmisuse

theorem commandFrom_allowing {g : Given} {awaiting : Awaiting} {args : List String}
    {i : Invocation} (h : commandFrom g awaiting args = .run i)
    (hwithout : i.allowWildcard = false) :
    commandFrom (allowing g) awaiting args = .run (allowed i) := by
  induction args generalizing g awaiting with
  | nil =>
    obtain ⟨hname, hi⟩ := command_eq_run.mp (command_of_run h).2
    have hcommand : (allowing g).command = .run (allowed i) := by
      rw [command_eq_run]
      exact ⟨hname, by rw [hi]; rfl⟩
    cases awaiting with
    | value o => cases h
    | anything => exact hcommand
    | operand => exact hcommand
  | cons arg rest ih =>
    obtain ⟨next, expected, hstep, hrest⟩ := argument_of_run h
    rcases argument_allowing g awaiting arg with hkeeps | ⟨-, htake⟩
    · rw [hstep] at hkeeps
      unfold commandFrom
      rw [hkeeps]
      exact ih hrest
    · -- The argument is the flag itself, so the command is not one without it.
      obtain ⟨hset, -⟩ := take_eq_inr.mp (htake.symm.trans hstep)
      have hgiven : i.allowWildcard = true := by
        apply allowed_of_run _ hrest
        rw [given_of_setFlag hset]
        rfl
      rw [hwithout] at hgiven
      cases hgiven

/-- The flag put before all arguments. -/
theorem command_flag_first {args : List String} {i : Invocation}
    (h : command args = .run i) (hwithout : i.allowWildcard = false) :
    command ("--allow-wildcard" :: args) = .run (allowed i) := by
  have hflag : argument .nothing .anything "--allow-wildcard" =
      .inr (allowing .nothing, .anything) := rfl
  unfold command commandFrom
  rw [hflag]
  exact commandFrom_allowing h hwithout

/-- Where names only are awaited, an argument is the name of the scenario. -/
theorem operand_taken {g next : Given} {arg : String} {expected : Awaiting}
    (h : argument g .operand arg = .inr (next, expected)) :
    g.scenario = none ∧ next.scenario = some arg ∧ expected = .operand := by
  unfold argument Given.setScenario at h
  by_cases hg : g.scenario.isSome ∨ arg = ""
  · simp only [if_pos hg] at h
    cases h
  · simp only [if_neg hg] at h
    cases h
    exact ⟨Option.not_isSome_iff_eq_none.mp (not_or.mp hg).1, rfl, rfl⟩

/-- The flag between two arguments. Where it is accepted and not already given, it is taken
for the flag: it cannot be a value, and as a name it would be one too many. -/
theorem commandFrom_flag {g : Given} {awaiting : Awaiting} {args : List String}
    {i j : Invocation} (h : commandFrom g awaiting args = .run i)
    (hwithout : i.allowWildcard = false)
    (hwith : commandFrom g awaiting ("--allow-wildcard" :: args) = .run j) : j = allowed i := by
  obtain ⟨next, expected, hstep, hrest⟩ := argument_of_run hwith
  cases awaiting with
  | value o => cases hstep
  | anything =>
    obtain ⟨hset, rfl⟩ := take_eq_inr.mp hstep
    rw [given_of_setFlag hset, commandFrom_allowing h hwithout] at hrest
    exact (Command.run.inj hrest).symm
  | operand =>
    obtain ⟨hnone, hnamed, rfl⟩ := operand_taken hstep
    have hlast : args = [] := by
      cases args with
      | nil => rfl
      | cons arg rest =>
        obtain ⟨other, expected, hagain, -⟩ := argument_of_run hrest
        rw [(operand_taken hagain).1] at hnamed
        cases hnamed
    rw [hlast] at h
    obtain ⟨hname, -⟩ := command_eq_run.mp (command_of_run h).2
    rw [hnone] at hname
    cases hname

/-- The flag anywhere among the arguments. -/
theorem command_flag {front back : List String} {i j : Invocation}
    (h : command (front ++ back) = .run i) (hwithout : i.allowWildcard = false)
    (hwith : command (front ++ "--allow-wildcard" :: back) = .run j) : j = allowed i := by
  unfold command at h hwith
  generalize Given.nothing = g, Awaiting.anything = awaiting at h hwith
  induction front generalizing g awaiting with
  | nil => exact commandFrom_flag h hwithout hwith
  | cons arg rest ih =>
    obtain ⟨next, expected, hstep, hrest⟩ := argument_of_run h
    obtain ⟨next', expected', hstep', hrest'⟩ := argument_of_run hwith
    rw [hstep] at hstep'
    cases hstep'
    exact ih next expected hrest hrest'

end AccessList.Proofs.ExtraFlags
