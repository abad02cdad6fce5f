import MutationLint.Language
import MutationLint.Node.Build
import MutationLint.Node.Walk
import MutationLint.Rule.Check

/-! Linting a source: its program is built once and every site is put to each active rule. -/

namespace MutationLint

/-- The rules that run, in order, each with its options. A rule may be listed more than once. -/
structure Linter where
  active : List (Rule × Options)

/-- Options for all rules alike, or by the name of the rule. -/
inductive OptionSource where
  | shared (options : Options)
  | byRule (options : List (Text × Options))

structure UnknownRules where
  names : List Text

def UnknownRules.message (u : UnknownRules) : Text :=
  Text.ofString "Unknown rule(s): " ++ Text.intercalate ", " u.names

namespace OptionSource

/-- The options of a rule; one that is not mentioned has the standard ones. -/
def get (source : OptionSource) (rule : Rule) : Options :=
  match source with
  | .shared o => o
  | .byRule os => (os.lookup (Text.ofString rule.name)).getD {}

end OptionSource

inductive LintFault where
  | language (name : Text)
  | notText (fault : Text.Utf8.Fault)
  | kindless

namespace LintFault

def ofBuild : BuildFault → LintFault
  | .notText f => .notText f
  | .kindless => .kindless

def languageMessage (name : Text) : Text := Text.ofString "Unsupported language: " ++ name

end LintFault

structure Note where
  rule : Rule
  text : String
  deriving DecidableEq, Repr

/-- The outcome of a run: the notes written on the way, and the findings or what stopped it. -/
structure Report where
  notes : List Note
  result : Except LintFault (List Finding)

namespace Finding

/-- Findings stand in the order of line, column and rule name. -/
def le (a b : Finding) : Bool :=
  a.line < b.line || (a.line == b.line &&
    (a.column < b.column || (a.column == b.column && !(b.rule.name < a.rule.name))))

end Finding

/-- What a rule says when it is called, with its place among the active rules. -/
structure Answer where
  place : Nat
  rule : Rule
  verdict : Except Text.Utf8.Fault Verdict

namespace Linter

/-- A linter for the named rules, or for all of them. -/
def create (options : OptionSource) (names : Option (List Text)) : Except UnknownRules Linter :=
  let names := names.getD (Rule.all.map fun r => r.name)
  match names.filter fun n => (Rule.ofName? n).isNone with
  | [] => .ok ⟨(names.filterMap Rule.ofName?).map fun r => (r, options.get r)⟩
  | unknown => .error ⟨unknown⟩

/-- The calls of one walk for all active rules, each with the place of its rule among them. -/
def calls (active : List (Rule × Options)) (program : Node) :
    List (Site × (Rule × Options) × Nat) :=
  Site.dispatch (fun l => active.zipIdx.filter (·.1.1.handles l)) program

def answers (active : List (Rule × Options)) (c : FileContext) (program : Node) : List Answer :=
  (calls active program).map fun (s, (r, o), place) => ⟨place, r, r.check o c s⟩

/-- The notes up to the first failure. -/
def notesOf : List Answer → List Note
  | ⟨_, r, .ok v⟩ :: rest => (v.note?.map (Note.mk r)).toList ++ notesOf rest
  | _ => []

def faultOf? : List Answer → Option Text.Utf8.Fault
  | [] => none
  | ⟨_, _, .ok _⟩ :: rest => faultOf? rest
  | ⟨_, _, .error f⟩ :: _ => some f

def recorded (as : List Answer) (place : Nat) : List Finding :=
  (as.filter (·.place == place)).filterMap fun a => a.verdict.toOption.bind Verdict.finding?

/-- Checks a program: one walk for all rules, whose findings are taken rule by rule and sorted. -/
def lintProgram (l : Linter) (c : FileContext) (program : Node) : Report :=
  let as := answers l.active c program
  ⟨notesOf as, match faultOf? as with
    | some f => .error (.notText f)
    | none => .ok (((List.range l.active.length).flatMap (recorded as)).mergeSort Finding.le)⟩

def lintSource (l : Linter) (source : Source) (language : Text) (tree : SyntaxTree)
    (filePath : Option Text) : Report :=
  match Language.ofName? language with
  | none => ⟨[], .error (.language language)⟩
  | some _ =>
    match tree.program source with
    | .error f => ⟨[], .error (.ofBuild f)⟩
    | .ok program => l.lintProgram ⟨source, filePath⟩ program

end Linter
end MutationLint
