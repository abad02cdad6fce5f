import MutationLint.Node.Basic
import MutationLint.SyntaxTree.Form

/-! Which node a syntax tree stands for, and which of its subtrees become the node's children. A
layout is the plan of one node: it says what is built, not how the parts are built in turn. -/

namespace MutationLint

/-- A child to be made from a subtree. -/
inductive Piece where
  /-- What the subtree builds. -/
  | built (t : SyntaxTree)
  /-- Likewise, a named function or class expression counting as a declaration. -/
  | declared (t : SyntaxTree)
  /-- The identifier spelled by the subtree. -/
  | spelled (t : SyntaxTree)

/-- A child: one piece, or a node over pieces that has the extent of the whole. -/
inductive Part where
  | piece (p : Piece)
  | group (label : Label) (pieces : List (Role × Piece))

inductive Layout where
  /-- No node at all. -/
  | nothing
  /-- Whatever a subtree builds, at its own extent. -/
  | inner (t : SyntaxTree)
  /-- A name, by its text. -/
  | identifier
  /-- A literal, by its text. -/
  | literal
  | node (label : Label) (parts : List (Role × Part))
  /-- A pattern moved to the extent of the whole, or the pattern with its default value. -/
  | parameter (pattern value : Option SyntaxTree)
  /-- A declaration that says nothing about its kind. -/
  | kindless

namespace Piece

def subtree? : Piece → Option SyntaxTree
  | .built t | .declared t => some t
  | .spelled _ => none

end Piece

def Part.subtrees : Part → List SyntaxTree
  | .piece p => p.subtree?.toList
  | .group _ ps => ps.filterMap (·.2.subtree?)

namespace Layout

def pieces (role : Role) (ts : List SyntaxTree) : List (Role × Piece) :=
  ts.map fun t => (role, .built t)

def all (role : Role) (ts : List SyntaxTree) : List (Role × Part) :=
  ts.map fun t => (role, .piece (.built t))

def one (role : Role) (t? : Option SyntaxTree) : List (Role × Part) := all role t?.toList

def subtrees : Layout → List SyntaxTree
  | .nothing | .identifier | .literal | .kindless => []
  | .inner t => [t]
  | .node _ parts => parts.flatMap (·.2.subtrees)
  | .parameter pattern value => pattern.toList ++ value.toList

end Layout

namespace SyntaxTree

open Layout

/-- The kind of a declaration: its marked word, else its first child. -/
def declarationKind? (t : SyntaxTree) : Option String :=
  ((t.field? "kind").or t.children.head?).map kind

/-- A clause of a loop header, which may come wrapped in a statement. -/
def clause? (t : SyntaxTree) (name : String) : Option SyntaxTree :=
  (t.field? name).bind fun c =>
    match c.form with
    | .emptyStatement => none
    | .expressionStatement => c.content.head?
    | _ => some c

/-- What an export statement declares, when no field says so and it has no value. -/
def exported? (t : SyntaxTree) : Option SyntaxTree :=
  match t.field? "declaration", t.field? "value" with
  | none, none => t.content.find? (·.kind.endsWith "_declaration")
  | declaration, _ => declaration

def exportLayout (t : SyntaxTree) : Layout :=
  match t.exported?, t.field? "value" with
  | some d, _ =>
    .node (if t.hasToken "default" then .exportDefault else .exportNamed)
      (one .declaration (some d))
  | none, some v => .node .exportDefault [(.declaration, .piece (.declared v))]
  | none, none => .node .exportNamed []

/-- The content of a parameter list. -/
def parameters (t : SyntaxTree) : List SyntaxTree :=
  ((t.field? "parameters").map content).getD []

/-- The parameters of an arrow function, of which one may stand without a list. -/
def arrowParameters (t : SyntaxTree) : List SyntaxTree :=
  match t.field? "parameter" with
  | some p => [p]
  | none => t.parameters

def functionParts (t : SyntaxTree) : List (Role × Part) :=
  one .id (t.field? "name") ++ all .params t.parameters ++ one .body (t.field? "body")

def superclass? (t : SyntaxTree) : Option SyntaxTree :=
  (t.content.find? (·.kind == "class_heritage")).bind (·.content.head?)

def classParts (t : SyntaxTree) : List (Role × Part) :=
  one .id (t.field? "name") ++ one .superclass t.superclass? ++ one .body (t.field? "body")

def isComputedKey (t : SyntaxTree) : Bool := t.kind == "computed_property_name"

/-- The key under a field, out of its brackets when it is computed. -/
def key? (t : SyntaxTree) (name : String) : Option SyntaxTree :=
  (t.field? name).bind fun k => if k.isComputedKey then k.content.head? else some k

def methodKind (t : SyntaxTree) : MethodKind :=
  if t.hasToken "get" then .getter else if t.hasToken "set" then .setter else .method

def methodLayout (t : SyntaxTree) : Layout :=
  .node (.methodDefinition t.methodKind (t.hasToken "static"))
    (one .key (t.key? "name") ++
      [(.value, .group (.functionExpression (t.hasToken "*") (t.hasToken "async"))
        (pieces .params t.parameters ++ pieces .body (t.field? "body").toList))])

/-- The arguments of a call; a template that is called on is the only argument. -/
def argumentTrees (t : SyntaxTree) : List SyntaxTree :=
  match t.field? "arguments" with
  | none => []
  | some a => if a.kind == "arguments" then a.content else [a]

def updateOperator? (t : SyntaxTree) : Option UpdateOperator :=
  if t.kind == "++" then some .increment else if t.kind == "--" then some .decrement else none

def updateLayout (t : SyntaxTree) : Layout :=
  .node
    (.update ((t.children.findSome? updateOperator?).getD .increment)
      ((t.children.head?.bind updateOperator?).isSome))
    (one .argument ((t.field? "argument").or t.content.head?))

def pairLayout (t : SyntaxTree) : Layout :=
  .node (.property (((t.field? "key").map isComputedKey).getD false) false)
    (one .key (t.key? "key") ++ one .value (t.field? "value"))

/-- A property with a default value. Its key is known when the left side spells a name. -/
def defaultedLayout (t : SyntaxTree) : Layout :=
  let right := pieces .right (t.field? "right").toList
  let value := fun left => (.value, .group .assignmentPattern (left ++ right))
  .node (.property false true) <|
    match t.field? "left" with
    | some l =>
      if l.form.isName then [(.key, .piece (.spelled l)), value [(.left, .spelled l)]]
      else [value [(.left, .built l)]]
    | none => [value []]

def layout (t : SyntaxTree) : Layout :=
  match t.form with
  | .trivia => .nothing
  | .parenthesized => match t.content.head? with
    | some c => .inner c
    | none => .nothing
  | .program => .node .program (all .body t.content)
  | .expressionStatement => .node .expressionStatement (one .expression t.content.head?)
  | .block => .node .blockStatement (all .body t.content)
  | .emptyStatement => .node .emptyStatement []
  | .returnStatement => .node .returnStatement (one .argument t.content.head?)
  | .declaration => match t.declarationKind? with
    | some k =>
      .node (.variableDeclaration k) (all .declarations (t.content.filter (·.form == .declarator)))
    | none => .kindless
  | .declarator =>
    .node .variableDeclarator (one .id (t.field? "name") ++ one .init (t.field? "value"))
  | .forStatement =>
    .node .forStatement
      (one .init (t.clause? "initializer") ++ one .test (t.clause? "condition") ++
        one .update (t.clause? "increment") ++ one .body (t.field? "body"))
  | .exportStatement => t.exportLayout
  | .functionDeclaration =>
    .node (.functionDeclaration (t.hasToken "*") (t.hasToken "async")) t.functionParts
  | .functionExpression =>
    .node (.functionExpression (t.hasToken "*") (t.hasToken "async")) t.functionParts
  | .arrowFunction =>
    .node
      (.arrowFunction (((t.field? "body").map (·.form != .block)).getD false) (t.hasToken "async"))
      (all .params t.arrowParameters ++ one .body (t.field? "body"))
  | .classDeclaration => .node .classDeclaration t.classParts
  | .classExpression => .node .classExpression t.classParts
  | .classBody => .node .classBody (all .body t.content)
  | .method => t.methodLayout
  | .thisWord => .node .thisExpression []
  | .superWord => .node .superReference []
  | .template =>
    .node .templateLiteral
      (all .expressions ((t.content.filter (·.kind == "template_substitution")).flatMap content))
  | .member =>
    .node (.member false (t.hasToken "optional_chain"))
      (one .object (t.field? "object") ++ one .property (t.field? "property"))
  | .subscript =>
    .node (.member true (t.hasToken "optional_chain"))
      (one .object (t.field? "object") ++ one .property (t.field? "index"))
  | .call =>
    .node (.call (t.hasToken "optional_chain"))
      (one .callee (t.field? "function") ++ all .arguments t.argumentTrees)
  | .construct =>
    .node .construct (one .callee (t.field? "constructor") ++ all .arguments t.argumentTrees)
  | .assignment =>
    .node (.assignment (((t.field? "operator").map kind).getD "="))
      (one .left (t.field? "left") ++ one .right (t.field? "right"))
  | .update => t.updateLayout
  | .conditional =>
    .node .conditional
      (one .test (t.field? "condition") ++ one .consequent (t.field? "consequence") ++
        one .alternate (t.field? "alternative"))
  | .object => .node .objectExpression (all .properties t.content)
  | .array => .node .arrayExpression (all .elements t.content)
  | .pair => t.pairLayout
  | .shorthand =>
    .node (.property false true) [(.key, .piece (.spelled t)), (.value, .piece (.spelled t))]
  | .spread => .node .spread (one .argument t.content.head?)
  | .objectPattern => .node .objectPattern (all .properties t.content)
  | .arrayPattern => .node .arrayPattern (all .elements t.content)
  | .defaultedProperty => t.defaultedLayout
  | .rest => .node .restElement (one .argument t.content.head?)
  | .assignmentPattern =>
    .node .assignmentPattern (one .left (t.field? "left") ++ one .right (t.field? "right"))
  | .parameter => .parameter (t.field? "pattern") (t.field? "value")
  | .cast => .node .cast (one .expression t.content.head?)
  | .identifier => .identifier
  | .literal => .literal
  | .other => .node (.other t.kind) (all .children t.content)

end SyntaxTree
end MutationLint
