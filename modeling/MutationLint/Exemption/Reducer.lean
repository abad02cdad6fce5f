import MutationLint.Node.Classes
import MutationLint.Text.Basic

/-! Callbacks of reducers: functions that are handed to a call of one of the given names. -/

namespace MutationLint

namespace Node

/-- The last property name of a callee, or its bare name. -/
def calleeName? (callee : Node) : Option String :=
  match callee.label with
  | .member _ _ => (callee.child? .property).bind identifier?
  | .identifier name => some name
  | _ => none

end Node

namespace Site

/-- The nearest enclosing function is part of a call whose callee is one of the reducers. -/
def inReducer (reducers : List Text) (s : Site) : Bool :=
  match s.block?.bind parent? with
  | none => false
  | some call =>
    call.label.isCall &&
      match (call.node.child? .callee).bind Node.calleeName? with
      | some name => reducers.contains name
      | none => false

/-- The function whose result the node is: it is returned, or it is the body of an arrow. -/
def resultOf? (s : Site) : Option Site :=
  s.parent?.bind fun p =>
    match p.label with
    | .returnStatement => if s.role? == some .argument then p.block? else none
    | .arrowFunction true _ => if s.role? == some .body then some p else none
    | _ => none

def isReducerResult (reducers : List Text) (s : Site) : Bool :=
  match s.resultOf? with
  | some callback => callback.inReducer reducers
  | none => false

end Site
end MutationLint
