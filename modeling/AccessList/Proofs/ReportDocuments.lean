import AccessList.Proofs.LeadingBits
import AccessList.Proofs.MatchDocuments
import AccessList.Proofs.PrintedDocuments
import AccessList.Reports
import Mathlib.Data.List.Nodup

/-!
Reports as documents. Every request has an object of its own, in the order of the requests: a
name, and either what was made or the text of the error. Numbers are in decimal, addresses
octet by octet, and what does not exist is left out. Such a document leaves nothing of a report
open but the causes of its errors.
-/
namespace AccessList.Proofs.ReportDocuments

open Addresses Documents Errors Fields Handles JsonPrinter Keys LeadingBits MatchDocuments
  PrintedDocuments Reports Rules Scenarios Statuses Verdicts

def said (key text : String) : Option String × Document := (some key, .text (some text))

def counted (key : String) (n : Nat) : Option String × Document := (some key, .nat n)

def listed (key : String) (items : List Document) : Option String × Document :=
  (some key, .array items)

/-- The name of the member tells how wide the cell is. -/
inductive ShowsCell : Cell → Document → Prop
  | bits8 (v : BitVec 8) : ShowsCell (.bits8 v) (.object [counted "u8" v.toNat])
  | bits16 (v : BitVec 16) : ShowsCell (.bits16 v) (.object [counted "u16" v.toNat])
  | bits32 (v : BitVec 32) : ShowsCell (.bits32 v) (.object [counted "u32" v.toNat])
  | mac {a : MacAddress} {octets : List UInt8} (six : octets.length = 6)
      (same : ofOctets octets = a.toNat) :
      ShowsCell (.mac a) (.object [listed "mac" (octets.map fun b => .nat b.toNat)])
  | ipv6 {a : Ipv6Address} {octets : List UInt8} (sixteen : octets.length = 16)
      (same : ofOctets octets = a.toNat) :
      ShowsCell (.ipv6 a) (.object [listed "ipv6" (octets.map fun b => .nat b.toNat)])

inductive ShowsKey : Key → Document → Prop
  | parts {key : Key} {value mask : Document} (shown : ShowsCell key.value value)
      (under : ShowsCell key.mask mask) :
      ShowsKey key (.object [
        (some "field", .object [said "type" key.field.kind.listName,
          said "field" key.field.name]),
        (some "value", value), (some "mask", mask)])

inductive ShowsTarget : Option ObjectId → Document → Prop
  | nothing : ShowsTarget none (.object [])
  | redirect (target : ObjectId) :
      ShowsTarget (some target) (.object [counted "redirect" target.toNat])

/-- A rule in the engine's terms, of which the redirect has its target among the parameters. -/
inductive ShowsRule : Rule → Document → Prop
  | parts {rule : Rule} {keys : List Document} {params : Document}
      (matching : List.Forall₂ ShowsKey rule.keys keys)
      (target : ShowsTarget rule.verdict.target params) :
      ShowsRule rule (.object [
        counted "table" rule.table.raw.toNat,
        said "shape" rule.kind.name,
        counted "priority" rule.priority.toNat,
        listed "keys" keys,
        said "action" rule.verdict.action.name,
        (some "params", params),
        listed "references" (rule.references.map fun object => .nat object.toNat)])

inductive ShowsTableReport : TableReport → Document → Prop
  | opened (name : String) (k : Kind) (t : TableHandle) :
      ShowsTableReport ⟨name, .ok (k, t)⟩ (.object [said "name" name, said "shape" k.name,
        counted "handle" t.raw.toNat])
  | refused (name : String) (e : RequestError) :
      ShowsTableReport ⟨name, .error e⟩ (.object [said "name" name, said "error" e.message,
        said "status" e.status.name])

/-- A rule has a handle if it was placed, and an error has a status if it is one of a request. -/
inductive ShowsRuleReport : RuleReport → Document → Prop
  | translated (name : String) {rule : Rule} {v : Document} (shown : ShowsRule rule v) :
      ShowsRuleReport ⟨name, .ok (rule, none)⟩ (.object [said "name" name,
        (some "translation", v)])
  | placed (name : String) {rule : Rule} (h : RuleHandle) {v : Document}
      (shown : ShowsRule rule v) :
      ShowsRuleReport ⟨name, .ok (rule, some h)⟩ (.object [said "name" name,
        (some "translation", v), counted "handle" h.raw.toNat])
  | notSubmitted (name : String) (cause : RuleError) :
      ShowsRuleReport ⟨name, .error (.notSubmitted cause)⟩ (.object [said "name" name,
        said "error" cause.message])
  | refused (name : String) (e : RequestError) :
      ShowsRuleReport ⟨name, .error (.request e)⟩ (.object [said "name" name,
        said "error" e.message, said "status" e.status.name])

inductive Shows : Report → Document → Prop
  | parts {report : Report} {tables rules : List Document}
      (opened : List.Forall₂ ShowsTableReport report.tables tables)
      (placed : List.Forall₂ ShowsRuleReport report.rules rules) :
      Shows report (.object [listed "tables" tables, listed "rules" rules])

theorem forall₂_map_asRead {α : Type} {shows : α → Document → Prop} {json : α → Json String}
    (h : ∀ a, shows a (asRead (json a))) (as : List α) :
    List.Forall₂ shows as (itemsAsRead (as.map json)) := by
  rw [itemsAsRead_eq_map, List.map_map, List.forall₂_map_right_iff]
  exact List.forall₂_same.mpr fun a _ => h a

theorem itemsAsRead_nats {α : Type} (f : α → Nat) (as : List α) :
    itemsAsRead (as.map fun a => .nat (f a)) = as.map fun a => .nat (f a) := by
  rw [itemsAsRead_eq_map, List.map_map]
  rfl

theorem asRead_octets (key : String) (bs : List UInt8) :
    asRead (.object [(key, octets bs)]) =
      .object [listed key (bs.map fun b => .nat b.toNat)] :=
  congrArg (fun items => Json.object [listed key items]) (itemsAsRead_nats UInt8.toNat bs)

theorem showsCell_asRead (c : Cell) : ShowsCell c (asRead (cellJson c)) := by
  cases c with
  | bits8 v => exact .bits8 v
  | bits16 v => exact .bits16 v
  | bits32 v => exact .bits32 v
  | mac a =>
    rw [cellJson, asRead_octets]
    have hwidth : 48 = 8 * 6 := rfl
    exact .mac (length_toOctets 6 a.toNat) (ofOctets_toOctets_toNat hwidth a)
  | ipv6 a =>
    rw [cellJson, asRead_octets]
    have hwidth : 128 = 8 * 16 := rfl
    exact .ipv6 (length_toOctets 16 a.toNat) (ofOctets_toOctets_toNat hwidth a)

theorem showsKey_asRead (key : Key) : ShowsKey key (asRead (keyJson key)) :=
  .parts (showsCell_asRead key.value) (showsCell_asRead key.mask)

theorem showsTarget_asRead (v : Verdict) : ShowsTarget v.target (asRead (targetJson v)) := by
  obtain ⟨action, target⟩ := v
  cases target with
  | none => exact .nothing
  | some target => exact .redirect target

theorem showsRule_asRead (rule : Rule) : ShowsRule rule (asRead (ruleJson rule)) := by
  have hshown := ShowsRule.parts (forall₂_map_asRead showsKey_asRead rule.keys)
    (showsTarget_asRead rule.verdict)
  rw [← itemsAsRead_nats UInt64.toNat rule.references] at hshown
  exact hshown

theorem showsTableReport_asRead (x : TableReport) : ShowsTableReport x (asRead x.json) := by
  obtain ⟨name, outcome⟩ := x
  cases outcome with
  | ok opened => exact .opened name opened.1 opened.2
  | error e => exact .refused name e

theorem showsRuleReport_asRead (x : RuleReport) : ShowsRuleReport x (asRead x.json) := by
  obtain ⟨name, outcome⟩ := x
  match outcome with
  | .ok (rule, none) => exact .translated name (showsRule_asRead rule)
  | .ok (rule, some h) => exact .placed name h (showsRule_asRead rule)
  | .error (.notSubmitted cause) => exact .notSubmitted name cause
  | .error (.request e) => exact .refused name e

theorem shows_asRead (report : Report) : Shows report (asRead report.json) :=
  .parts (forall₂_map_asRead showsTableReport_asRead report.tables)
    (forall₂_map_asRead showsRuleReport_asRead report.rules)

theorem whole_cell (c : Cell) : Whole (cellJson c) := by
  cases c <;> simp [cellJson, octets]

theorem whole_key (key : Key) : Whole (keyJson key) := by
  simp [keyJson, fieldJson, whole_cell]

theorem whole_target (v : Verdict) : Whole (targetJson v) := by
  obtain ⟨action, target⟩ := v
  cases target <;> simp [targetJson, Json.optional, uint64]

theorem whole_rule (rule : Rule) : Whole (ruleJson rule) := by
  simp [ruleJson, uint64, whole_key, whole_target]

theorem whole_tableReport (x : TableReport) : Whole x.json := by
  obtain ⟨name, outcome⟩ := x
  cases outcome <;> simp [TableReport.json, failureJson, Json.optional, uint64]

theorem whole_ruleReport (x : RuleReport) : Whole x.json := by
  obtain ⟨name, outcome⟩ := x
  match outcome with
  | .ok (rule, none) => simp [RuleReport.json, Json.optional, whole_rule]
  | .ok (rule, some h) => simp [RuleReport.json, Json.optional, uint64, whole_rule]
  | .error (.notSubmitted cause) | .error (.request cause) =>
    simp [RuleReport.json, failureJson, Failure.status, Json.optional]

theorem whole_json (report : Report) : Whole report.json := by
  simp [Report.json, whole_tableReport, whole_ruleReport]

/-- What a client can tell of an outcome: the value, or the text and the status of the error. -/
abbrev Told (α : Type) := Except (String × Option ClientStatus) α

def tableTold (x : TableReport) : String × Told (Kind × TableHandle) :=
  (x.name, x.outcome.mapError fun e => (e.message, some e.status))

def ruleTold (x : RuleReport) : String × Told (Rule × Option RuleHandle) :=
  (x.name, x.outcome.mapError fun e => (e.message, e.status))

theorem nat_eq_iff {n m : Nat} : (Json.nat n : Document) = .nat m ↔ n = m := by
  constructor
  · intro h
    have hread := natBelow?_nat (Nat.lt_succ_of_le (Nat.le_max_left n m))
    rw [h, natBelow?_nat (Nat.lt_succ_of_le (Nat.le_max_right n m))] at hread
    exact (Option.some.inj hread).symm
  · rintro rfl
    rfl

theorem nats_eq_iff {α : Type} {f : α → Nat} (hf : ∀ a b, f a = f b → a = b) {as bs : List α} :
    (as.map fun a => (.nat (f a) : Document)) = bs.map (fun a => .nat (f a)) ↔ as = bs :=
  List.map_inj_right fun a b h => hf a b (nat_eq_iff.mp h)

theorem octets_eq_iff {as bs : List UInt8} :
    (as.map fun b => (.nat b.toNat : Document)) = bs.map (fun b => .nat b.toNat) ↔ as = bs :=
  nats_eq_iff fun _ _ => UInt8.toNat_inj.mp

theorem objects_eq_iff {as bs : List ObjectId} :
    (as.map fun object => (.nat object.toNat : Document)) =
      bs.map (fun object => .nat object.toNat) ↔ as = bs :=
  nats_eq_iff fun _ _ => UInt64.toNat_inj.mp

theorem cell_unique {c c' : Cell} {v : Document} (h : ShowsCell c v) (h' : ShowsCell c' v) :
    c = c' := by
  generalize hsame : v = v' at h'
  cases h <;> cases h' <;>
    simp [counted, listed, nat_eq_iff, octets_eq_iff, BitVec.toNat_inj] at hsame ⊢
  case bits8.bits8 => exact hsame
  case bits16.bits16 => exact hsame
  case bits32.bits32 => exact hsame
  case mac.mac hvalue _ _ _ hvalue' =>
    rw [hsame, hvalue'] at hvalue
    exact BitVec.toNat_inj.mp hvalue.symm
  case ipv6.ipv6 hvalue _ _ _ hvalue' =>
    rw [hsame, hvalue'] at hvalue
    exact BitVec.toNat_inj.mp hvalue.symm

theorem injective_of_nodup {α β : Type} {name : α → β} (all : List α) (hall : ∀ a, a ∈ all)
    (h : (all.map name).Nodup) : Function.Injective name :=
  fun a b => List.inj_on_of_nodup_map h (hall a) (hall b)

theorem kind_name_injective : Function.Injective Kind.name :=
  injective_of_nodup Kind.all Kind.mem_all (by decide)

theorem field_names_injective :
    Function.Injective fun f : Field => (f.kind.listName, f.name) :=
  injective_of_nodup Field.all Field.mem_all (by decide +kernel)

theorem action_name_injective : Function.Injective Action.name :=
  injective_of_nodup Action.all (fun a => by cases a <;> decide) (by decide)

theorem status_name_injective : Function.Injective ClientStatus.name :=
  injective_of_nodup ClientStatus.all (fun s => by cases s <;> decide) (by decide +kernel)

theorem key_unique {key key' : Key} {v : Document} (h : ShowsKey key v) (h' : ShowsKey key' v) :
    key = key' := by
  generalize hsame : v = v' at h'
  cases h with
  | parts hvalue hmask =>
  cases h' with
  | parts hvalue' hmask' =>
  simp only [said, Json.object.injEq, Json.text.injEq, List.cons.injEq, Prod.mk.injEq,
    Option.some.injEq, true_and, and_true] at hsame
  obtain ⟨⟨hkind, hname⟩, rfl, rfl⟩ := hsame
  have hfield : key.field = key'.field := field_names_injective (Prod.ext hkind hname)
  have hvalues := cell_unique hvalue hvalue'
  have hmasks := cell_unique hmask hmask'
  cases key
  cases key'
  simp only at hfield hvalues hmasks
  rw [hfield, hvalues, hmasks]

theorem target_unique {target target' : Option ObjectId} {v : Document}
    (h : ShowsTarget target v) (h' : ShowsTarget target' v) : target = target' := by
  generalize hsame : v = v' at h'
  cases h <;> cases h' <;> simp [counted, nat_eq_iff, UInt64.toNat_inj] at hsame ⊢
  exact hsame

theorem rule_unique {rule rule' : Rule} {v : Document} (h : ShowsRule rule v)
    (h' : ShowsRule rule' v) : rule = rule' := by
  generalize hsame : v = v' at h'
  cases h with
  | parts hkeys htarget =>
  cases h' with
  | parts hkeys' htarget' =>
  simp only [said, counted, listed, Json.object.injEq, Json.array.injEq, Json.text.injEq,
    List.cons.injEq, Prod.mk.injEq, Option.some.injEq, true_and, and_true, nat_eq_iff,
    UInt64.toNat_inj, UInt32.toNat_inj, objects_eq_iff] at hsame
  obtain ⟨htable, hkind, hpriority, rfl, haction, rfl, hreferences⟩ := hsame
  have hleft : Relator.LeftUnique ShowsKey := fun _ _ _ => key_unique
  have hkeysSame := List.left_unique_forall₂' hleft hkeys hkeys'
  have htargets := target_unique htarget htarget'
  have hactions := action_name_injective haction
  have hkinds := kind_name_injective hkind
  obtain ⟨⟨⟨table⟩, priority, keys, action, target⟩, kind, references⟩ := rule
  obtain ⟨⟨⟨table'⟩, priority', keys', action', target'⟩, kind', references'⟩ := rule'
  simp only at htable hpriority hreferences hkeysSame htargets hactions hkinds
  rw [htable, hpriority, hkeysSame, hreferences, htargets, hactions, hkinds]

theorem handle_eq {o : Stored} {h h' : Handle o} (same : h.raw = h'.raw) : h = h' :=
  congrArg Handle.mk same

theorem tableReport_unique {x x' : TableReport} {v : Document} (h : ShowsTableReport x v)
    (h' : ShowsTableReport x' v) : tableTold x = tableTold x' := by
  generalize hsame : v = v' at h'
  cases h <;> cases h' <;> simp [said, counted, nat_eq_iff, UInt64.toNat_inj] at hsame
  case opened.opened =>
    obtain ⟨rfl, hkind, hhandle⟩ := hsame
    rw [kind_name_injective hkind, handle_eq hhandle]
  case refused.refused =>
    obtain ⟨rfl, hmessage, hstatus⟩ := hsame
    simp only [tableTold, Except.mapError, hmessage, status_name_injective hstatus]

theorem ruleReport_unique {x x' : RuleReport} {v : Document} (h : ShowsRuleReport x v)
    (h' : ShowsRuleReport x' v) : ruleTold x = ruleTold x' := by
  generalize hsame : v = v' at h'
  cases h <;> cases h' <;> simp [said, counted, nat_eq_iff, UInt64.toNat_inj] at hsame
  case translated.translated hrule _ _ _ hrule' =>
    obtain ⟨rfl, rfl⟩ := hsame
    rw [rule_unique hrule hrule']
  case placed.placed hrule _ _ _ _ hrule' =>
    obtain ⟨rfl, rfl, hhandle⟩ := hsame
    rw [rule_unique hrule hrule', handle_eq hhandle]
  case notSubmitted.notSubmitted =>
    obtain ⟨rfl, hmessage⟩ := hsame
    simp only [ruleTold, Except.mapError, Failure.message, Failure.status, hmessage]
  case refused.refused =>
    obtain ⟨rfl, hmessage, hstatus⟩ := hsame
    simp only [ruleTold, Except.mapError, Failure.message, Failure.status, hmessage,
      status_name_injective hstatus]

theorem map_eq_of_forall₂ {α β : Type} {shows : α → Document → Prop} {told : α → β}
    {as as' : List α} {vs : List Document} (h : List.Forall₂ shows as vs)
    (h' : List.Forall₂ shows as' vs)
    (hunique : ∀ {a a' v}, shows a v → shows a' v → told a = told a') :
    as.map told = as'.map told := by
  induction h generalizing as' with
  | nil =>
    cases h'
    rfl
  | cons hfirst _ ih =>
    cases h' with
    | cons hfirst' hrest' => rw [List.map_cons, List.map_cons, hunique hfirst hfirst', ih hrest']

/-- Two reports that a client cannot tell apart. -/
structure ToldAlike (report other : Report) : Prop where
  tables : report.tables.map tableTold = other.tables.map tableTold
  rules : report.rules.map ruleTold = other.rules.map ruleTold

theorem toldAlike_of_shows {report other : Report} {v : Document} (h : Shows report v)
    (h' : Shows other v) : ToldAlike report other := by
  generalize hsame : v = v' at h'
  cases h with
  | parts htables hrules =>
  cases h' with
  | parts htables' hrules' =>
  simp only [listed, Json.object.injEq, Json.array.injEq, List.cons.injEq, Prod.mk.injEq,
    true_and, and_true] at hsame
  obtain ⟨rfl, rfl⟩ := hsame
  exact ⟨map_eq_of_forall₂ htables htables' tableReport_unique,
    map_eq_of_forall₂ hrules hrules' ruleReport_unique⟩

/-- A text that is the report: it is read as a document that shows this report, and no report
that a client could tell from it. -/
def Prints (text : String) (report : Report) : Prop :=
  ∃ v, JsonReader.ofText? text = some v ∧ Shows report v ∧
    ∀ other, Shows other v → ToldAlike report other

theorem prints_render (s : Setting) (report : Report) :
    Prints (String.ofList (render s report.json []) ++ "\n") report := by
  refine ⟨asRead report.json, ?_, shows_asRead report, fun other h => ?_⟩
  · rw [ofText?_lineBreak]
    exact ofText?_render s (whole_json report)
  · exact toldAlike_of_shows (shows_asRead report) h

example : JsonPrinter.compact (Report.json ⟨[⟨"edge", .ok (.ipv4, ⟨7⟩)⟩], []⟩) =
    "\x7b\"tables\":[\x7b\"name\":\"edge\",\"shape\":\"IPV4\",\"handle\":7\x7d]," ++
      "\"rules\":[]\x7d" := by
  decide +kernel

end AccessList.Proofs.ReportDocuments
