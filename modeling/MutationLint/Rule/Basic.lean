import MutationLint.Text.Basic

/-! The rules, the categories of what they report, and their messages. -/

namespace MutationLint

inductive Rule where
  | noMutation
  | noMutatingFunctions
  deriving DecidableEq, Repr

inductive Category where
  | reassignment
  | increment
  | decrement
  | commonJs
  | prototypes
  | mutatingFunction
  deriving DecidableEq, Repr

/-- A message with at most one slot for a name. -/
structure Template where
  lead : String
  slot : Option String
  tail : String
  deriving DecidableEq, Repr

namespace Template

def text (t : Template) : String :=
  t.lead ++ ((t.slot.map fun s => "\x7b" ++ s ++ "\x7d").getD "") ++ t.tail

def fill (t : Template) (value : String) : String :=
  t.lead ++ (if t.slot.isSome then value else "") ++ t.tail

end Template

namespace Category

def name : Category → String
  | .reassignment => "reassignmentError"
  | .increment => "incrementError"
  | .decrement => "decrementError"
  | .commonJs => "commonJsError"
  | .prototypes => "prototypesError"
  | .mutatingFunction => "mutatingFunctionError"

def template : Category → Template
  | .reassignment => ⟨"Unallowed reassignment to `", some "assignee", "`"⟩
  | .increment => ⟨"Unallowed use of `++` operator", none, ""⟩
  | .decrement => ⟨"Unallowed use of `--` operator", none, ""⟩
  | .commonJs => ⟨"Unallowed reassignment to `", some "assignee",
      "`. You may want to activate the `commonjs` option for this rule"⟩
  | .prototypes => ⟨"Unallowed reassignment to `", some "assignee",
      "`. You may want to activate the `prototypes` option for this rule"⟩
  | .mutatingFunction => ⟨"Unallowed use of mutating function '", some "name", "'"⟩

end Category

namespace Rule

def all : List Rule := [.noMutation, .noMutatingFunctions]

def name : Rule → String
  | .noMutation => "no-mutation"
  | .noMutatingFunctions => "no-mutating-functions"

def ofName? (name : Text) : Option Rule := all.find? (Text.ofString ·.name == name)

def description : Rule → String
  | .noMutation => "Forbid the use of mutating operators."
  | .noMutatingFunctions => "Forbid the use of mutating functions such as Object.assign."

def categories : Rule → List Category
  | .noMutation => [.reassignment, .increment, .decrement, .commonJs, .prototypes]
  | .noMutatingFunctions => [.mutatingFunction]

end Rule
end MutationLint
