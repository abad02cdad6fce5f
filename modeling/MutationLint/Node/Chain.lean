import MutationLint.Node.Basic

/-! Reading names out of expressions: the objects a member access is built on, the name at their
end, and the values a conditional may come to. -/

namespace MutationLint.Node

def isMember (n : Node) : Bool :=
  match n.label with
  | .member _ _ => true
  | _ => false

def identifier? (n : Node) : Option String :=
  match n.label with
  | .identifier name => some name
  | _ => none

mutual

/-- The node a chain of member accesses starts from: `a` in `a.b[c].d`. -/
def leftMost : Node → Node
  | .mk (.member c o) e cs => (leftMostOfObject cs).getD (.mk (.member c o) e cs)
  | n => n

def leftMostOfObject : List (Role × Node) → Option Node
  | [] => none
  | (.object, n) :: _ => some n.leftMost
  | _ :: rest => leftMostOfObject rest

end

/-- The name of an identifier, also under a type cast. -/
def name? (n : Node) : Option String :=
  match n.label with
  | .cast => (n.child? .expression).bind identifier?
  | _ => n.identifier?

/-- The name of the variable that a target is built on. -/
def base? (n : Node) : Option String := n.leftMost.name?

/-- The object of a member access, or the identifier itself. -/
def reference? (n : Node) : Option Node :=
  match n.label with
  | .member _ _ => n.child? .object
  | .identifier _ => some n
  | _ => none

mutual

/-- The expressions a value may come from: the branches of conditionals, of which one that is
missing counts as nothing. -/
def outcomes : Node → List (Option Node)
  | .mk .conditional _ cs => outcomesIn .consequent cs ++ outcomesIn .alternate cs
  | n => [some n]

def outcomesIn (role : Role) : List (Role × Node) → List (Option Node)
  | [] => [none]
  | (r, n) :: rest => if r = role then n.outcomes else outcomesIn role rest

end

end MutationLint.Node
