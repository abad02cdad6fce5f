import MutationLint.Command.Arguments
import MutationLint.Config.Session
import MutationLint.Files.Discover
import MutationLint.Linter.File
import MutationLint.Terminal.Markup

/-! The check command: it reads the configuration, lints every file it discovers and tells the
outcome by its exit code. -/

namespace MutationLint.Command

/-- What is handed to the console. -/
inductive Printed where
  | line (fragments : List Fragment)
  | table (title : Fragment) (headers : List Fragment) (rows : List (List Fragment))
  deriving DecidableEq, Repr

/-- A fault that ends the program. -/
inductive Escape where
  | config (fault : ConfigFault)
  | file (fault : FileFault)
  | lint (fault : LintFault)

structure Outcome where
  exit : Nat
  printed : List Printed
  trace : Text := ""
  escaped : Option Escape := none

def Outcome.ofEscape (e : Escape) : Outcome := { exit := 1, printed := [], escaped := some e }

/-- A fault comes up after what the outcome tells; one that ended the program before comes first. -/
def Outcome.thenFault (o : Outcome) (e : Escape) : Outcome :=
  if o.escaped.isSome then o else { Outcome.ofEscape e with trace := o.trace }

structure World where
  files : Files
  env : Environment
  terminal : Terminal

inductive FileOutcome where
  | unsupported
  | unreadable
  | checked (report : Report)
  /-- The system refuses to read it. -/
  | failed (fault : FileFault)

namespace FileOutcome

def report? : FileOutcome → Option Report
  | .checked r => some r
  | _ => none

def isUnsupported : FileOutcome → Bool
  | .unsupported => true
  | _ => false

def isUnreadable : FileOutcome → Bool
  | .unreadable => true
  | _ => false

def fault? : FileOutcome → Option Escape
  | .checked r => match r.result with
    | .error f => some (.lint f)
    | .ok _ => none
  | .failed f => some (.file f)
  | _ => none

def findings (o : FileOutcome) : List Finding :=
  match o.report? with
  | some r => r.result.toOption.getD []
  | none => []

def notes (o : FileOutcome) : List Note := (o.report?.map Report.notes).getD []

end FileOutcome

def outcomeOf (l : Linter) (fs : Files) (p : Path) : FileOutcome :=
  if (Language.ofPath? p).isNone then .unsupported
  else match l.lintFile fs p with
    | .ok (some r) => .checked r
    | .ok none => .unreadable
    | .error f => .failed f

/-- The outcomes up to and including the first that ends with a fault. -/
def untilFault : List (Path × FileOutcome) → List (Path × FileOutcome)
  | [] => []
  | o :: rest => o :: if o.2.fault?.isSome then [] else untilFault rest

/-- The directory whose configuration counts: the first path, or the one it lies in. -/
def projectRoot (fs : Files) (paths : List Text) : Except FileFault Path := do
  let first := (paths.head?.map Path.ofText).getD .here
  return if ← fs.isDirectory first then first else first.parent

def ruleOptions (project : Project) (overrides : Fields) :
    Except OptionFault (List (Text × Options)) :=
  Rule.all.mapM fun r => do return (Text.ofString r.name, ← project.optionsFor r.name overrides)

/-- The rules to run: those that are named, else those that the project leaves on. -/
def ruleNames (project : Project) (named : List Text) : List Text :=
  if named.isEmpty then (Rule.all.map fun r => Text.ofString r.name).filter project.isEnabled
  else named

def configure (w : World) (a : CheckArguments) (paths : List Text) :
    Except ConfigFault (Environment × Linter) := do
  let root ← (projectRoot w.files paths).mapError .file
  match Session.opened w.files w.env Session.envFile with
  | (_, some f) => throw f
  | (env, none) =>
    let project ← Config.load w.files env root (a.config.map Path.ofText)
    let options ← (ruleOptions project a.overrides.fields).mapError .options
    let linter ← (Linter.create (.byRule options) (some (ruleNames project a.rules))).mapError
      .unknownRules
    return (env, linter)

def location (f : Finding) : Text :=
  f.filePath.getD "" ++ ":" ++ Text.ofString (toString f.line) ++ ":" ++
    Text.ofString (toString (f.column + 1))

def findingsTable (fs : List Finding) : Printed :=
  .table (.markup "Mutations") [.markup "Location", .markup "Rule", .markup "Message"]
    (fs.map fun f => [.verbatim (location f), .markup f.rule.name, .verbatim f.message])

def skipped (why : String) (p : Path) : Printed :=
  .line [.markup (Text.ofString ("[dim]Skipped " ++ why ++ ": ")), .verbatim p.text,
    .markup "[/dim]"]

def count (what : String) (n : Nat) : Printed :=
  .line [.markup (Text.ofString ("  " ++ what ++ ": " ++ toString n))]

def noneFound : Text := "[bold green]✓ No mutations found![/bold green]"

def summary (outcomes : List (Path × FileOutcome)) : List Printed :=
  let findings := outcomes.flatMap (·.2.findings)
  let unsupported := (outcomes.filter (·.2.isUnsupported)).map (·.1)
  let unreadable := (outcomes.filter (·.2.isUnreadable)).map (·.1)
  let checked := (outcomes.filter (·.2.report?.isSome)).length
  (if findings.isEmpty then [] else [findingsTable findings]) ++
    unsupported.map (skipped "unsupported file type") ++
    unreadable.map (skipped "unreadable file") ++
    [.line [.markup "\n[bold yellow]Summary:[/bold yellow]"], count "Files checked" checked,
      count "Mutations found" findings.length] ++
    (if findings.isEmpty then [.line [.markup noneFound]] else [])

def traceText (terminal : Terminal) (env : Environment) (notes : List Note) : Text :=
  if Trace.isOn (env.get? Trace.switch) then
    Text.join (notes.map fun n => Trace.line terminal n.rule.name n.text)
  else ""

def report (w : World) (env : Environment) (l : Linter) (found : List Path) : Outcome :=
  let outcomes := found.map fun p => (p, outcomeOf l w.files p)
  let trace := traceText w.terminal env ((untilFault outcomes).flatMap (·.2.notes))
  match outcomes.findSome? (·.2.fault?) with
  | some e => { Outcome.ofEscape e with trace }
  | none =>
    { exit := if (outcomes.flatMap (·.2.findings)).isEmpty then 0 else 1
      printed := summary outcomes
      trace }

/-- The end of a run that cannot start, with the reason. -/
def refuse (title : String) (reason : List Fragment) : Outcome :=
  let title := Text.ofString ("[bold red]" ++ title ++ "[/bold red] ")
  { exit := 2, printed := [.line (.markup title :: reason)] }

/-- The first path that does not exist. -/
def missing? (fs : Files) : List Text → Except FileFault (Option Text)
  | [] => .ok none
  | p :: rest => do if ← fs.contains (.ofText p) then missing? fs rest else return some p

/-- Checks paths that exist. Files are linted while the search goes on. -/
def checkPaths (w : World) (a : CheckArguments) (paths : List Text) : Outcome :=
  match configure w a paths with
  | .error f =>
    if f.isReported then refuse "Configuration error:" [.verbatim f.message]
    else .ofEscape (.config f)
  | .ok (env, l) =>
    let search := w.files.search (paths.map Path.ofText)
    match search.fault? with
    | some f => (report w env l search.found).thenFault (.file f)
    | none => report w env l search.found

def check (w : World) (a : CheckArguments) : Outcome :=
  let w := if a.has .debug then { w with env := w.env.set Trace.switch "1" } else w
  let paths := if a.paths.isEmpty then [Text.ofString "."] else a.paths
  match missing? w.files paths with
  | .error f => .ofEscape (.file f)
  | .ok (some p) => refuse "Error:" [.markup "Path does not exist: ", .verbatim p]
  | .ok none => checkPaths w a paths

end MutationLint.Command
