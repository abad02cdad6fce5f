import MutationLint.Callee
import MutationLint.Exemption.Basic
import MutationLint.Node.Names
import MutationLint.Rule.Basic
import MutationLint.Source

/-! What a rule says about one site. -/

namespace MutationLint

structure Finding where
  rule : Rule
  category : Category
  message : String
  line : Int
  column : Int
  assignee : Option String
  filePath : Option Text
  node : Node

structure FileContext where
  source : Source
  filePath : Option Text

inductive Verdict where
  | allowed
  /-- Allowed by an option, with a note for the trace. -/
  | noted (note : String)
  | reported (finding : Finding)

namespace Verdict

def finding? : Verdict → Option Finding
  | .reported f => some f
  | _ => none

def note? : Verdict → Option String
  | .noted n => some n
  | _ => none

end Verdict

def ErrorType.category : ErrorType → Category
  | .commonJs => .commonJs
  | .prototype => .prototypes
  | .regular => .reassignment

def UpdateOperator.category : UpdateOperator → Category
  | .increment => .increment
  | .decrement => .decrement

namespace FileContext

/-- The text of a node; a missing node has none. -/
def text (c : FileContext) : Option Node → Except Text.Utf8.Fault String
  | some n => c.source.text n.extent
  | none => .ok ""

/-- Records a finding at a node. The message may name something; it is kept as the assignee when it
is called so. -/
def report (c : FileContext) (r : Rule) (n : Node) (category : Category)
    (named : Option (String × String)) : Finding :=
  { rule := r
    category := category
    message := category.template.fill ((named.map (·.2)).getD "")
    line := n.extent.line
    column := n.extent.column
    assignee := (named.filter (·.1 == "assignee")).map (·.2)
    filePath := c.filePath
    node := n }

end FileContext

namespace Rule

/-- The names of the node kinds a rule looks at, in alphabetical order. -/
def watches : Rule → List String
  | .noMutation => ["AssignmentExpression", "UpdateExpression"]
  | .noMutatingFunctions => ["CallExpression"]

def handles (r : Rule) (l : Label) : Bool := r.watches.contains l.name

/-- A bare name must be rebindable; any other target must be a part of a fresh value. -/
def isLocal (o : Options) (target : Option Node) (start : Option Site) : Bool :=
  if ((target.map (·.identifier?.isSome)).getD false) then (Target.of target start).isRebindable
  else (Target.of target start).isFresh o.functionProps

def checkAssignment (o : Options) (c : FileContext) (s : Site) : Except Text.Utf8.Fault Verdict :=
  if s.isExempt o then do return .noted ("exempt: " ++ (← c.text s.left?))
  else if isLocal o s.left? s.parent? then return .allowed
  else do
    let assignee ← c.text s.left?
    return .reported
      (c.report .noMutation s.node s.errorType.category (some ("assignee", assignee)))

def checkUpdate (o : Options) (c : FileContext) (operator : UpdateOperator) (s : Site) : Verdict :=
  if isLocal o (s.node.child? .argument) (some s) then .allowed
  else .reported (c.report .noMutation s.node operator.category none)

/-- The first argument of a call is fresh, so that changing it is no mutation. -/
def freshFirst (o : Options) (s : Site) : Bool :=
  match s.node.childrenIn .arguments with
  | [] => false
  | target :: _ =>
    target.label.isContainer || target.label.isFunctionExpression ||
      (Target.of (some target) (some s)).isFresh o.functionProps

def checkCall (o : Options) (c : FileContext) (s : Site) : Verdict :=
  match (s.node.child? .callee).bind Node.qualifiedName? with
  | none => .allowed
  | some name =>
    if !Callee.isMutating o.lodashImports name then .allowed
    else if !(s.node.childrenIn .arguments).isEmpty && o.ignoredMethods.contains name then
      .noted ("ignored: " ++ name)
    else if freshFirst o s || s.isReducerResult o.reducers then .allowed
    else .reported (c.report .noMutatingFunctions s.node .mutatingFunction (some ("name", name)))

/-- What a rule says about a site. It fails only where the text of a target is not text. -/
def check (r : Rule) (o : Options) (c : FileContext) (s : Site) : Except Text.Utf8.Fault Verdict :=
  match r, s.label with
  | .noMutation, .assignment _ => checkAssignment o c s
  | .noMutation, .update operator _ => .ok (checkUpdate o c operator s)
  | .noMutatingFunctions, .call _ => .ok (checkCall o c s)
  | _, _ => .ok .allowed

end Rule
end MutationLint
