import AccessList.Reports
import AccessList.Requests

/-!
Running a scenario: all tables are opened first, then the rules are prepared in turn and, if
they are to be placed, placed. A rule names a table by the name in its request; of several
tables with that name the last one that was opened is meant.
-/
namespace AccessList.Runs

open Errors Fields Handles Limits Reports Requests Scenarios Sessions

/-- Opens a table and asks the engine for its kind. -/
def runTable (t : TableRequest) : Session TableReport :=
  (openTable t.qualifiers).bind fun
    | .error e => .done ⟨t.name, .error e⟩
    | .ok h => (kindOf h).bind fun
      | .error e => .done ⟨t.name, .error e⟩
      | .ok k => .done ⟨t.name, .ok (k, h)⟩

/-- The last table of a name that was opened. -/
def tableNamed (tables : List TableReport) (name : String) : Option TableHandle :=
  (tables.filterMap fun t =>
    match t.outcome with
    | .ok (_, h) => if t.name = name then some h else none
    | .error _ => none).getLast?

def runRule (s : Settings) (placing : Bool) (tables : List TableReport) (r : RuleRequest) :
    Session RuleReport :=
  match r.attributes (tableNamed tables) with
  | .error e => .done ⟨r.name, .error (.notSubmitted e)⟩
  | .ok attrs => (prepare s attrs).bind fun
    | .error e => .done ⟨r.name, .error (.request e)⟩
    | .ok rule =>
      if placing then
        (place rule).bind fun
          | .error e => .done ⟨r.name, .error (.request e)⟩
          | .ok h => .done ⟨r.name, .ok (rule, some h)⟩
      else .done ⟨r.name, .ok (rule, none)⟩

def run (s : Settings) (placing : Bool) (scenario : Scenario) : Session Report :=
  (Session.each runTable scenario.tables).bind fun tables =>
    (Session.each (runRule s placing tables) scenario.rules).bind fun rules =>
      .done ⟨tables, rules⟩

end AccessList.Runs
