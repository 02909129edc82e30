import AccessList.Files
import AccessList.JsonPrinter
import AccessList.Runs
import AccessList.Switches

/-!
The command line: which files to read and how, and what is printed. Arguments are taken from
the left, and the first one that is wrong, or that asks for the version or for help, decides.
Flags of one letter may stand together, the last of them with a value. An option or a flag
may be given once. The exit code says whether all requests succeeded, some failed, or nothing
could be run.
-/
namespace AccessList.CommandLine

open Files Limits Reports Runs Switches

inductive ValueOption
  | config
  | logLevel
  deriving DecidableEq

inductive Flag
  | allowWildcard
  | dryRun
  | pretty
  deriving DecidableEq

/-- What the arguments so far have given. -/
structure Given where
  scenario : Option String
  options : ValueOption → Option String
  flags : Flag → Bool

def Given.nothing : Given := ⟨none, fun _ => none, fun _ => false⟩

/-- What a whole command line asks for. -/
structure Invocation where
  scenario : String
  config : Option String
  allowWildcard : Bool
  dryRun : Bool
  pretty : Bool
  deriving DecidableEq

inductive Command
  | version
  | help
  | misuse
  | run (i : Invocation)
  deriving DecidableEq

/-- What the next argument is taken for. -/
inductive Awaiting
  | anything
  | value (o : ValueOption)
  | operand

namespace Given

/-- A file needs a name. -/
def setOption (g : Given) (o : ValueOption) (value : String) : Option Given :=
  if (g.options o).isSome ∨ (o = .config ∧ value = "") then none
  else some { g with options := fun p => if p = o then some value else g.options p }

def setFlag (g : Given) (f : Flag) : Option Given :=
  if g.flags f then none
  else some { g with flags := fun p => if p = f then true else g.flags p }

def setScenario (g : Given) (name : String) : Option Given :=
  if g.scenario.isSome ∨ name = "" then none else some { g with scenario := some name }

def command (g : Given) : Command :=
  match g.scenario with
  | none => .misuse
  | some scenario =>
    .run ⟨scenario, g.options .config, g.flags .allowWildcard, g.flags .dryRun, g.flags .pretty⟩

end Given

/-- One argument either decides the command or is taken in. -/
abbrev Step := Command ⊕ (Given × Awaiting)

def Step.take (g : Option Given) : Step :=
  match g with
  | none => .inl .misuse
  | some g => .inr (g, .anything)

inductive Letter
  | flag (f : Flag)
  | option (o : ValueOption)
  | version
  | help

def letter? (c : Char) : Option Letter :=
  match c with
  | 'p' => some (.flag .pretty)
  | 'c' => some (.option .config)
  | 'l' => some (.option .logLevel)
  | 'V' => some .version
  | 'h' => some .help
  | _ => none

def word? (name : String) : Option Letter :=
  match name with
  | "pretty" => some (.flag .pretty)
  | "allow-wildcard" => some (.flag .allowWildcard)
  | "dry-run" => some (.flag .dryRun)
  | "config" => some (.option .config)
  | "log-level" => some (.option .logLevel)
  | "version" => some .version
  | "help" => some .help
  | _ => none

/-- The letters after one dash. What follows the letter of an option is its value, after an
equals sign or not; if nothing follows, the next argument is. -/
def letters (g : Given) : List Char → Step
  | [] => .inr (g, .anything)
  | c :: rest =>
    match letter? c with
    | none => .inl .misuse
    | some .version => .inl .version
    | some .help => .inl .help
    | some (.flag f) =>
      match g.setFlag f with
      | none => .inl .misuse
      | some g => letters g rest
    | some (.option o) =>
      match rest with
      | [] => .inr (g, .value o)
      | '=' :: value => .take (g.setOption o (String.ofList value))
      | value => .take (g.setOption o (String.ofList value))

/-- The text before the first equals sign and the text after it, if there is one. -/
def cutEquals : List Char → List Char × Option (List Char)
  | [] => ([], none)
  | '=' :: rest => ([], some rest)
  | c :: rest => (c :: (cutEquals rest).1, (cutEquals rest).2)

/-- The name after two dashes. Only an option takes a value. -/
def word (g : Given) (cs : List Char) : Step :=
  match word? (String.ofList (cutEquals cs).1), (cutEquals cs).2 with
  | some .version, none => .inl .version
  | some .help, none => .inl .help
  | some (.flag f), none => .take (g.setFlag f)
  | some (.option o), none => .inr (g, .value o)
  | some (.option o), some value => .take (g.setOption o (String.ofList value))
  | _, _ => .inl .misuse

/-- A dash alone is a name; two dashes alone make names of all that follows. -/
def argument (g : Given) (awaiting : Awaiting) (arg : String) : Step :=
  match awaiting, arg.toList with
  | .operand, _ =>
    match g.setScenario arg with
    | none => .inl .misuse
    | some g => .inr (g, .operand)
  | .value _, '-' :: _ :: _ => .inl .misuse
  | .value o, _ => .take (g.setOption o arg)
  | .anything, ['-', '-'] => .inr (g, .operand)
  | .anything, '-' :: '-' :: cs => word g cs
  | .anything, '-' :: c :: cs => letters g (c :: cs)
  | .anything, _ => .take (g.setScenario arg)

def commandFrom (g : Given) (awaiting : Awaiting) : List String → Command
  | [] =>
    match awaiting with
    | .value _ => .misuse
    | _ => g.command
  | arg :: rest =>
    match argument g awaiting arg with
    | .inl c => c
    | .inr (g, awaiting) => commandFrom g awaiting rest

def command (args : List String) : Command := commandFrom .nothing .anything args

/-- What a run leaves behind: its exit code, and what it prints and complains of. -/
structure Outcome where
  exit : Nat
  out : String
  complaint : String
  deriving DecidableEq

def versionText : String := "acl-xlate 0.1.0\n"

def usageText : String :=
  "Usage: acl-xlate [-c FILE] [--allow-wildcard] [--dry-run] [-p] [-l LEVEL] SCENARIO\n"

def settingsOf (read : FileReader) (i : Invocation) : Except LoadError Settings := do
  let s ← match i.config with
    | none => .ok standard
    | some path => loadSettings read path
  .ok (if i.allowWildcard then { s with keyless := .allowed } else s)

/-- The report of a scenario run on an empty switch. -/
def reportOf (read : FileReader) (i : Invocation) : Except LoadError Report := do
  let s ← settingsOf read i
  let scenario ← loadScenario read i.scenario
  .ok ((run s (!i.dryRun) scenario).run Switch.engine Switch.empty).1

def Invocation.outcome (read : FileReader) (i : Invocation) : Outcome :=
  match reportOf read i with
  | .error e => ⟨2, "", e.message ++ "\n"⟩
  | .ok report =>
    let text := if i.pretty then JsonPrinter.pretty report.json else JsonPrinter.compact report.json
    ⟨if 0 < report.failures then 1 else 0, text ++ "\n", ""⟩

def Command.outcome (read : FileReader) : Command → Outcome
  | .version => ⟨0, versionText, ""⟩
  | .help => ⟨0, usageText, ""⟩
  | .misuse => ⟨2, "", usageText⟩
  | .run i => i.outcome read

def outcome (read : FileReader) (args : List String) : Outcome :=
  (command args).outcome read

end AccessList.CommandLine
