import MutationLint.Node.Classes

/-! The variable declarations a node owns and the names their declarators bind. A name is bound
plainly, or by an object pattern that holds it directly. -/

namespace MutationLint

namespace Node

/-- The name that a property of an object pattern binds. -/
def destructured? (property : Node) : Option String := (property.child? .value).bind identifier?

def isObjectPattern (n : Node) : Bool := n.label = .objectPattern

def boundNames (declarator : Node) : List String :=
  match declarator.child? .id with
  | none => []
  | some id =>
    if id.isObjectPattern then (id.childrenIn .properties).filterMap destructured?
    else id.identifier?.toList

def destructures (declarator : Node) : Bool :=
  ((declarator.child? .id).map isObjectPattern).getD false

def declarationKind? (n : Node) : Option String :=
  match n.label with
  | .variableDeclaration kind => some kind
  | _ => none

end Node

namespace Site

def declarators (declaration : Site) : List Site :=
  if declaration.label.isVariableDeclaration then declaration.childrenIn .declarations else []

/-- The first declarator of a declaration that binds the name. -/
def declarator? (declaration : Site) (name : String) : Option Site :=
  declaration.declarators.find? (·.node.boundNames.contains name)

def declares (declaration : Site) (name : String) : Bool := (declaration.declarator? name).isSome

/-- The variable declarations among the statements of a node, or in its loop header. -/
def declarations (owner : Site) : List Site :=
  owner.children.filter fun c =>
    c.label.isVariableDeclaration &&
      (owner.label.isStatementList && c.role? == some .body ||
        owner.label = .forStatement && c.role? == some .init)

def declarationsOf (owner : Site) (name : String) : List Site :=
  owner.declarations.filter (·.declares name)

/-- The nearest node of the variable scope that declares the name. -/
def declaring? (start : Site) (name : String) : Option Site :=
  start.variableScope.find? fun owner => !(owner.declarationsOf name).isEmpty

end Site
end MutationLint
