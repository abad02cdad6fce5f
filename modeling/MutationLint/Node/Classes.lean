import MutationLint.Node.Chain
import MutationLint.Node.Site

/-! Classes of nodes that the analysis tells apart, and the blocks that enclose a site. -/

namespace MutationLint

namespace Label

def isReference : Label → Bool
  | .member _ _ | .identifier _ => true
  | _ => false

def isContainer : Label → Bool
  | .objectExpression | .arrayExpression => true
  | _ => false

def isLiteral : Label → Bool
  | .literal _ => true
  | _ => false

def isFunctionExpression : Label → Bool
  | .functionExpression _ _ | .arrowFunction _ _ => true
  | _ => false

def isConditional : Label → Bool
  | .conditional => true
  | _ => false

def isDeclaration : Label → Bool
  | .functionDeclaration _ _ | .classDeclaration => true
  | _ => false

def isExport : Label → Bool
  | .exportDefault | .exportNamed => true
  | _ => false

def isVariableDeclaration : Label → Bool
  | .variableDeclaration _ => true
  | _ => false

/-- Look-ups of variables go no further up than here. -/
def endsVariableScope (l : Label) : Bool := l = .program || l.isDeclaration

/-- Look-ups of functions and of callbacks go no further up than here. -/
def endsBlock (l : Label) : Bool := l.endsVariableScope || l.isFunctionExpression

def isStatementList : Label → Bool
  | .program | .blockStatement => true
  | _ => false

def isCall : Label → Bool
  | .call _ | .construct => true
  | _ => false

end Label

def Node.statements (n : Node) : List Node :=
  if n.label.isStatementList then n.childrenIn .body else []

namespace Site

def variableScope (s : Site) : List Site := upTo Label.endsVariableScope s.node s.path

def blockScope (s : Site) : List Site := upTo Label.endsBlock s.node s.path

/-- The nearest program, function or class, the node itself included. -/
def block? (s : Site) : Option Site := s.blockScope.find? (·.label.endsBlock)

end Site
end MutationLint
