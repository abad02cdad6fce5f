import MutationLint.Exemption.Reducer
import MutationLint.Options
import MutationLint.Scope.Lookup

/-! Assignments that are exempt whatever the scope: to the exports of a module, to a prototype, to a
target the options list, or inside a reducer callback. -/

namespace MutationLint

namespace Node

def isExports (n : Node) : Bool := n.isNamed "exports"

def isModuleExports (n : Node) : Bool :=
  n.isMember && ((n.child? .object).map (·.isNamed "module")).getD false &&
    ((n.child? .property).map (·.isNamed "exports")).getD false

mutual

/-- The exports of a module, or a member of theirs at any depth. -/
def reachesExports : Node → Bool
  | .mk l e cs =>
    isExports (.mk l e cs) || isModuleExports (.mk l e cs) ||
      isMember (.mk l e cs) && objectReachesExports cs

def objectReachesExports : List (Role × Node) → Bool
  | [] => false
  | (.object, n) :: _ => n.reachesExports
  | _ :: rest => objectReachesExports rest

end

/-- A member of `prototype` of a bare name. -/
def isPrototype (n : Node) : Bool :=
  n.isMember && match n.child? .object with
    | none => false
    | some owner =>
      owner.isMember && ((owner.child? .object).bind identifier?).isSome &&
        ((owner.child? .property).map (·.isNamed "prototype")).getD false

end Node

inductive ErrorType where
  | commonJs
  | prototype
  | regular
  deriving DecidableEq, Repr

namespace Site

def left? (s : Site) : Option Node := s.node.child? .left

def writesExports (s : Site) : Bool := (s.left?.map Node.reachesExports).getD false

/-- The assignment is to a prototype of a function or class declared in the block. -/
def writesPrototype (s : Site) : Bool :=
  (s.left?.map Node.isPrototype).getD false && (Target.of s.left? s.parent?).isFunction

def errorType (s : Site) : ErrorType :=
  if s.writesExports then .commonJs else if s.writesPrototype then .prototype else .regular

def writesException (s : Site) (patterns : List Pattern) : Bool :=
  (s.left?.map (Pattern.anyMatches patterns)).getD false

def parentInReducer (s : Site) (reducers : List Text) : Bool :=
  (s.parent?.map (·.inReducer reducers)).getD false

def isExempt (s : Site) (o : Options) : Bool :=
  (o.commonjs && s.writesExports) || (o.prototypes && s.writesPrototype) ||
    s.writesException o.patterns || s.parentInReducer o.reducers

end Site
end MutationLint
