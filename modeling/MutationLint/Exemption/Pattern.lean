import MutationLint.Node.Chain
import MutationLint.Text.Basic

/-! Patterns of member accesses that may be written to. A pattern names the object, the property or
both; one that names neither matches nothing, and the pattern for `this` matches its members. -/

namespace MutationLint

structure Pattern where
  object : Option Text
  property : Option Text
  this : Bool
  deriving DecidableEq, Repr

namespace Pattern

def ofThis : Pattern := ⟨none, none, true⟩

end Pattern

namespace Node

def isNamed (n : Node) (name : String) : Bool := n.label = .identifier name

/-- The name a pattern's object is compared with: `a` for `a`, and `b` for `a.b`. -/
def objectName? (n : Node) : Option String :=
  match n.label with
  | .identifier name => some name
  | .member false _ => (n.child? .property).bind identifier?
  | _ => none

end Node

namespace Pattern

/-- A side of a pattern allows a name; a side that is left open allows also none. -/
def allows (side : Option Text) (name : Option String) : Bool :=
  match side with
  | none => true
  | some wanted => name.map Text.ofString == some wanted

def matchesMember (p : Pattern) (n : Node) : Bool :=
  n.isMember &&
    if p.this then ((n.child? .object).map (·.label == .thisExpression)).getD false
    else
      (p.object.isSome || p.property.isSome) &&
        allows p.object ((n.child? .object).bind Node.objectName?) &&
        allows p.property ((n.child? .property).bind Node.identifier?)

section
variable (patterns : List Pattern)

mutual

/-- Some pattern matches the node or a member access it is built on. -/
def anyMatches : Node → Bool
  | .mk l e cs =>
    Node.isMember (.mk l e cs) &&
      (patterns.any (·.matchesMember (.mk l e cs)) || anyMatchesObject cs)

def anyMatchesObject : List (Role × Node) → Bool
  | [] => false
  | (.object, n) :: _ => anyMatches n
  | _ :: rest => anyMatchesObject rest

end
end

end Pattern
end MutationLint
