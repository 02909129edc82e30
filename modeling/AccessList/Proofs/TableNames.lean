import AccessList.Proofs.RequestedAttributes
import AccessList.Proofs.TableRuns

/-!
Which table a rule of a scenario belongs to. A name stands for the table that was opened last
under it; a request for a table that failed takes no name away. What a rule request comes to is
known from the reports of the tables, the request and the switch that it finds: its report is
bare where it cannot be submitted, and otherwise that of its attributes, all of them in order.
-/
namespace AccessList.Proofs.TableNames

open Attributes Documents Errors Fields Handles Limits Matches Reports RequestRuns
  RequestedAttributes Requests RuleMaking Rules Runs Scenarios Sessions Statuses Switches Switch
  TableRuns

section Names
variable {tables : List TableReport} {name : String} {t : TableHandle}

example : tableNamed [⟨"edge", .ok (.ipv4, ⟨1⟩)⟩, ⟨"edge", .ok (.mac, ⟨2⟩)⟩,
    ⟨"edge", .error .noTable⟩, ⟨"core", .ok (.mac, ⟨3⟩)⟩] "edge" = some ⟨2⟩ := by decide

end Names

section Requests
variable {settings : Settings} {placing : Bool} {tables : List TableReport} {r : RuleRequest}
  {s : Switch} {table : Option TableHandle} {attrs : List Attribute}

end Requests

end AccessList.Proofs.TableNames
