import AccessList.Proofs.ExtraFlags
import AccessList.Proofs.KeylessRules
import AccessList.Proofs.ReportDocuments

/-!
What the exit code of a run says. A run needs a scenario and, if a settings file is named,
settings with room for a key; where it has them it prints its report, whatever the requests
come to, and the report can be read from what is printed. Allowing rules without keys is no
matter of the files, and lets no request fail that would not fail without it.
-/
namespace AccessList.Proofs.ExitCodes

open CommandLine ExtraFlags Files KeylessRules Limits ReportDocuments Reports Runs Scenarios
  Sessions Switches

variable {read : FileReader}

/-- Why a file gives no settings. -/
inductive NoSettings (read : FileReader) (path : String) : Prop
  | unread (reason : String) (h : read path = .error reason)
  | malformed (bytes : List UInt8) (found : read path = .ok bytes)
      (h : (JsonReader.ofBytes? bytes).bind settings? = none)
  | noRoom (bytes : List UInt8) (s : Settings) (found : read path = .ok bytes)
      (parsed : (JsonReader.ofBytes? bytes).bind settings? = some s) (h : s.maxKeys = 0)

/-- Why a file gives no scenario. -/
inductive NoScenario (read : FileReader) (path : String) : Prop
  | unread (reason : String) (h : read path = .error reason)
  | malformed (bytes : List UInt8) (found : read path = .ok bytes)
      (h : (JsonReader.ofBytes? bytes).bind scenario? = none)

/-- The files of a command cannot be used. -/
def Unusable (read : FileReader) (i : Invocation) : Prop :=
  (∃ path, i.config = some path ∧ NoSettings read path) ∨ NoScenario read i.scenario

/-- The settings that a command starts from. -/
inductive Chosen (read : FileReader) : Option String → Settings → Prop
  | standard : Chosen read none standard
  | file (path : String) (bytes : List UInt8) (s : Settings) (found : read path = .ok bytes)
      (parsed : (JsonReader.ofBytes? bytes).bind settings? = some s) (room : s.maxKeys ≠ 0) :
      Chosen read (some path) s

def Listed (read : FileReader) (path : String) (scenario : Scenario) : Prop :=
  ∃ bytes, read path = .ok bytes ∧ (JsonReader.ofBytes? bytes).bind scenario? = some scenario

/-- The report is that of the scenario, run on a new switch with the settings. -/
def Reported (read : FileReader) (i : Invocation) (report : Report) : Prop :=
  ∃ settings scenario, Chosen read i.config settings ∧ Listed read i.scenario scenario ∧
    report = ((run (if i.allowWildcard then loosened settings else settings) (!i.dryRun)
      scenario).run Switch.engine Switch.empty).1

/-- Whether anything was refused. -/
def HasError (report : Report) : Prop :=
  (∃ t ∈ report.tables, ∃ e, t.outcome = .error e) ∨
    ∃ x ∈ report.rules, ∃ e, x.outcome = .error e

section Settings
variable {path : String}

theorem loadSettings_of_found {bytes : List UInt8} (found : read path = .ok bytes) :
    loadSettings read path = checkedSettings (JsonReader.ofBytes? bytes) := by
  simp only [loadSettings, bytesOf, found]
  rfl

theorem loadSettings_of_chosen {s : Settings} (h : Chosen read (some path) s) :
    loadSettings read path = .ok s := by
  cases h with
  | file _ bytes _ found parsed room =>
    rw [loadSettings_of_found found]
    simp only [checkedSettings, parsed, if_neg room]

theorem error_of_noSettings (h : NoSettings read path) :
    ∃ e, loadSettings read path = .error e := by
  cases h with
  | unread reason unread =>
    refine ⟨.unreadable .settings path reason, ?_⟩
    simp only [loadSettings, bytesOf, unread]
    rfl
  | malformed bytes found malformed =>
    refine ⟨.malformed .settings, ?_⟩
    rw [loadSettings_of_found found]
    simp only [checkedSettings, malformed]
  | noRoom bytes s found parsed none =>
    refine ⟨.noKeysAllowed, ?_⟩
    rw [loadSettings_of_found found]
    simp only [checkedSettings, parsed, if_pos none]

theorem noSettings_or_chosen (read : FileReader) (path : String) :
    NoSettings read path ∨ ∃ s, Chosen read (some path) s := by
  cases found : read path with
  | error reason => exact Or.inl (.unread reason found)
  | ok bytes =>
    cases parsed : (JsonReader.ofBytes? bytes).bind settings? with
    | none => exact Or.inl (.malformed bytes found parsed)
    | some s =>
      by_cases room : s.maxKeys = 0
      · exact Or.inl (.noRoom bytes s found parsed room)
      · exact Or.inr ⟨s, .file path bytes s found parsed room⟩

end Settings

section Scenario
variable {path : String}

theorem loadScenario_of_found {bytes : List UInt8} (found : read path = .ok bytes) :
    loadScenario read path = checkedScenario (JsonReader.ofBytes? bytes) := by
  simp only [loadScenario, bytesOf, found]
  rfl

theorem loadScenario_of_listed {scenario : Scenario} (h : Listed read path scenario) :
    loadScenario read path = .ok scenario := by
  obtain ⟨bytes, found, parsed⟩ := h
  rw [loadScenario_of_found found]
  simp only [checkedScenario, parsed]

theorem error_of_noScenario (h : NoScenario read path) :
    ∃ e, loadScenario read path = .error e := by
  cases h with
  | unread reason unread =>
    refine ⟨.unreadable .scenario path reason, ?_⟩
    simp only [loadScenario, bytesOf, unread]
    rfl
  | malformed bytes found malformed =>
    refine ⟨.malformed .scenario, ?_⟩
    rw [loadScenario_of_found found]
    simp only [checkedScenario, malformed]

theorem noScenario_or_listed (read : FileReader) (path : String) :
    NoScenario read path ∨ ∃ scenario, Listed read path scenario := by
  cases found : read path with
  | error reason => exact Or.inl (.unread reason found)
  | ok bytes =>
    cases parsed : (JsonReader.ofBytes? bytes).bind scenario? with
    | none => exact Or.inl (.malformed bytes found parsed)
    | some scenario => exact Or.inr ⟨scenario, bytes, found, parsed⟩

end Scenario

section Outcomes
variable {i : Invocation}

theorem settingsOf_of_chosen {s : Settings} (h : Chosen read i.config s) :
    settingsOf read i = .ok (if i.allowWildcard then loosened s else s) := by
  unfold settingsOf
  cases hconfig : i.config with
  | none =>
    rw [hconfig] at h
    cases h
    rfl
  | some path =>
    rw [hconfig] at h
    simp only [loadSettings_of_chosen h]
    rfl

theorem reportOf_of_reported {report : Report} (h : Reported read i report) :
    reportOf read i = .ok report := by
  obtain ⟨settings, scenario, chosen, listed, rfl⟩ := h
  unfold reportOf
  rw [settingsOf_of_chosen chosen, loadScenario_of_listed listed]
  rfl

theorem error_of_unusable (h : Unusable read i) : ∃ e, reportOf read i = .error e := by
  rcases h with ⟨path, hconfig, nothing⟩ | nothing
  · obtain ⟨e, he⟩ := error_of_noSettings nothing
    refine ⟨e, ?_⟩
    simp only [reportOf, settingsOf, hconfig, he]
    rfl
  · obtain ⟨e, he⟩ := error_of_noScenario nothing
    cases hsettings : settingsOf read i with
    | error first =>
      refine ⟨first, ?_⟩
      simp only [reportOf, hsettings]
      rfl
    | ok s =>
      refine ⟨e, ?_⟩
      simp only [reportOf, hsettings, he]
      rfl

theorem unusable_or_reported (read : FileReader) (i : Invocation) :
    Unusable read i ∨ ∃ report, Reported read i report := by
  rcases noScenario_or_listed read i.scenario with nothing | ⟨scenario, listed⟩
  · exact Or.inl (Or.inr nothing)
  · cases hconfig : i.config with
    | none =>
      refine Or.inr ⟨_, standard, scenario, ?_, listed, rfl⟩
      rw [hconfig]
      exact .standard
    | some path =>
      rcases noSettings_or_chosen read path with nothing | ⟨s, chosen⟩
      · exact Or.inl (Or.inl ⟨path, hconfig, nothing⟩)
      · refine Or.inr ⟨_, s, scenario, ?_, listed, rfl⟩
        rw [hconfig]
        exact chosen

theorem failed_iff {ε α : Type} {x : Except ε α} : failed x = true ↔ ∃ e, x = .error e := by
  cases x <;> simp [failed]

theorem failures_pos_iff (report : Report) : 0 < report.failures ↔ HasError report := by
  unfold Report.failures HasError
  rw [Nat.add_pos_iff_pos_or_pos, List.countP_pos_iff, List.countP_pos_iff]
  simp only [failed_iff]

theorem outcome_of_unusable (h : Unusable read i) :
    (i.outcome read).exit = 2 ∧ (i.outcome read).out = "" := by
  obtain ⟨e, he⟩ := error_of_unusable h
  simp only [Invocation.outcome, he, and_self]

theorem outcome_of_reported {report : Report} (h : Reported read i report) :
    Prints (i.outcome read).out report ∧
      (i.outcome read).exit = if 0 < report.failures then 1 else 0 := by
  unfold Invocation.outcome
  rw [reportOf_of_reported h]
  refine ⟨?_, rfl⟩
  cases hpretty : i.pretty with
  | false => exact prints_render .compact report
  | true => exact prints_render (.indented 0) report

end Outcomes

/-- What the exit code and the printed text of a run say. -/
structure ExitTells (read : FileReader) (i : Invocation) (o : Outcome) : Prop where
  unusable : o.exit = 2 ∧ o.out = "" ↔ Unusable read i
  reported : ¬ Unusable read i → ∃ report, Reported read i report ∧ Prints o.out report ∧
    (o.exit = 1 ∧ HasError report ∨ o.exit = 0 ∧ ¬ HasError report)

theorem exitTells_outcome (read : FileReader) (i : Invocation) :
    ExitTells read i (i.outcome read) := by
  rcases unusable_or_reported read i with hunusable | ⟨report, hreported⟩
  · exact ⟨iff_of_true (outcome_of_unusable hunusable) hunusable, fun h => absurd hunusable h⟩
  · obtain ⟨hout, hexit⟩ := outcome_of_reported hreported
    have hends : (i.outcome read).exit = 1 ∧ HasError report ∨
        (i.outcome read).exit = 0 ∧ ¬ HasError report := by
      rw [hexit, ← failures_pos_iff]
      by_cases hfailures : 0 < report.failures
      · exact Or.inl ⟨if_pos hfailures, hfailures⟩
      · exact Or.inr ⟨if_neg hfailures, hfailures⟩
    refine ⟨⟨fun h => ?_, outcome_of_unusable⟩, fun _ => ⟨report, hreported, hout, hends⟩⟩
    rcases hends with ⟨hone, -⟩ | ⟨hzero, -⟩ <;> omega

/-- The flag stands somewhere among the other arguments. -/
def WithFlag (args args' : List String) : Prop :=
  ∃ front back, args = front ++ back ∧ args' = front ++ "--allow-wildcard" :: back

/-- What the flag makes of a run: a command that asks for the same otherwise, the same end of
a run that fails for its files or not at all, and reports that differ only in rules let in
and in the handles of rules. -/
structure Loosened (read : FileReader) (i j : Invocation) (o o' : Outcome) : Prop where
  command : j = allowed i
  unusable : o.exit = 2 → o'.exit = 2
  succeeded : o.exit = 0 → o'.exit = 0
  reports : o.exit ≠ 2 → ∃ report report',
    (Reported read i report ∧ Prints o.out report) ∧
    (Reported read j report' ∧ Prints o'.out report') ∧
    report'.tables = report.tables ∧ List.Forall₂ (LetsIn (!i.dryRun)) report.rules report'.rules

theorem exists_error_of_letsIn {placing : Bool} {xs ys : List RuleReport}
    (h : List.Forall₂ (LetsIn placing) xs ys) (hys : ∃ y ∈ ys, ∃ e, y.outcome = .error e) :
    ∃ x ∈ xs, ∃ e, x.outcome = .error e := by
  induction h with
  | nil => exact hys
  | @cons x y xs ys hfirst hrest ih =>
    rcases List.exists_mem_cons_iff _ _ _ |>.mp hys with herror | hlater
    · exact ⟨x, List.mem_cons_self, error_of_letsIn hfirst herror⟩
    · obtain ⟨z, hz, herror⟩ := ih hlater
      exact ⟨z, List.mem_cons_of_mem x hz, herror⟩

theorem hasError_of_letsIn {placing : Bool} {report report' : Report}
    (htables : report'.tables = report.tables)
    (hrules : List.Forall₂ (LetsIn placing) report.rules report'.rules)
    (h : HasError report') : HasError report := by
  rcases h with htable | hrule
  · rw [htables] at htable
    exact Or.inl htable
  · exact Or.inr (exists_error_of_letsIn hrules hrule)

theorem reported_allowed {i : Invocation} {report : Report} (h : Reported read i report)
    (hwithout : i.allowWildcard = false) :
    ∃ report', Reported read (allowed i) report' ∧ report'.tables = report.tables ∧
      List.Forall₂ (LetsIn (!i.dryRun)) report.rules report'.rules := by
  obtain ⟨settings, scenario, chosen, listed, hreport⟩ := h
  rw [hwithout] at hreport
  refine ⟨_, ⟨settings, scenario, chosen, listed, rfl⟩, ?_⟩
  rw [hreport]
  exact letsIn_run settings (!i.dryRun) scenario

theorem loosened_outcome (read : FileReader) {i : Invocation} (hwithout : i.allowWildcard = false) :
    Loosened read i (allowed i) (i.outcome read) ((allowed i).outcome read) := by
  rcases unusable_or_reported read i with hunusable | ⟨report, hreported⟩
  · have hboth : Unusable read (allowed i) := hunusable
    have hexit := (outcome_of_unusable hunusable).1
    exact ⟨rfl, fun _ => (outcome_of_unusable hboth).1, fun h => by omega, fun h => absurd hexit h⟩
  · obtain ⟨report', hreported', htables, hrules⟩ := reported_allowed hreported hwithout
    obtain ⟨hout, hexit⟩ := outcome_of_reported hreported
    obtain ⟨hout', hexit'⟩ := outcome_of_reported hreported'
    refine ⟨rfl, fun htwo => ?_, fun hzero => ?_, fun _ =>
      ⟨report, report', ⟨hreported, hout⟩, ⟨hreported', hout'⟩, htables, hrules⟩⟩
    · rw [hexit] at htwo
      split at htwo <;> cases htwo
    · have hnone : ¬ 0 < report.failures := by
        intro hfailures
        rw [hexit, if_pos hfailures] at hzero
        cases hzero
      have hnone' : ¬ 0 < report'.failures := by
        rw [failures_pos_iff] at hnone ⊢
        exact fun h => hnone (hasError_of_letsIn htables hrules h)
      rw [hexit', if_neg hnone']

/-- Of every command line that is accepted: what it leaves behind, and what it leaves behind
with the flag added. -/
theorem exit_code_tells (read : FileReader) {args : List String} {i : Invocation}
    (accepted : command args = .run i) :
    ExitTells read i (outcome read args) ∧
      (i.allowWildcard = false →
        command ("--allow-wildcard" :: args) = .run (allowed i) ∧
          ∀ args' j, WithFlag args args' → command args' = .run j →
            Loosened read i j (outcome read args) (outcome read args')) := by
  have houtcome : outcome read args = i.outcome read := by
    unfold outcome
    rw [accepted]
    rfl
  rw [houtcome]
  refine ⟨exitTells_outcome read i, fun hwithout => ⟨command_flag_first accepted hwithout, ?_⟩⟩
  rintro args' j ⟨front, back, hargs, rfl⟩ accepted'
  have houtcome' : outcome read (front ++ "--allow-wildcard" :: back) = j.outcome read := by
    unfold outcome
    rw [accepted']
    rfl
  rw [hargs] at accepted
  rw [houtcome', command_flag accepted hwithout accepted']
  exact loosened_outcome read hwithout

/-- One file: a scenario of one table and one rule that has neither matches nor actions. -/
def bareRule : FileReader := fun path =>
  if path = "rules.json" then
    .ok "[[[\"edge\",[\"TTL\"]]],[[\"bare\",\"edge\"]]]".toUTF8.toList
  else .error "No such file"

/-- The rule fails, and with the flag it does not; a settings file would be missing. -/
theorem exit_code_tells_bareRule :
    let i : Invocation := ⟨"rules.json", none, false, false, false⟩
    ((outcome bareRule ["rules.json"]).exit = 1 ∧
      (outcome bareRule ["--allow-wildcard", "rules.json"]).exit = 0 ∧
      (outcome bareRule ["rules.json", "-c", "limits.json"]).exit = 2) ∧
    command ["rules.json"] = .run i ∧
    ExitTells bareRule i (outcome bareRule ["rules.json"]) ∧
      (i.allowWildcard = false →
        command ("--allow-wildcard" :: ["rules.json"]) = .run (allowed i) ∧
          ∀ args' j, WithFlag ["rules.json"] args' → command args' = .run j →
            Loosened bareRule i j (outcome bareRule ["rules.json"]) (outcome bareRule args')) := by
  intro i
  have haccepted : command ["rules.json"] = .run i := by decide
  refine ⟨⟨by decide +kernel, by decide +kernel, by decide +kernel⟩, haccepted, ?_⟩
  exact exit_code_tells bareRule haccepted

end AccessList.Proofs.ExitCodes
