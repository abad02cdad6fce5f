import MutationLint.SyntaxTree.Basic

/-! The node model of a program: a tree whose nodes carry a label, and hold each child in a role.
An absent part is a missing role and a list part is a role held several times; children stand in
the order of their roles. -/

namespace MutationLint

inductive Role where
  | body
  | expression
  | argument
  | init
  | test
  | update
  | declarations
  | id
  | declaration
  | params
  | superclass
  | key
  | value
  | expressions
  | object
  | property
  | callee
  | arguments
  | left
  | right
  | consequent
  | alternate
  | properties
  | elements
  | children
  deriving DecidableEq, Repr

inductive MethodKind where
  | method
  | getter
  | setter
  | constructor
  deriving DecidableEq, Repr

inductive UpdateOperator where
  | increment
  | decrement
  deriving DecidableEq, Repr

/-- The kind of a node with the attributes that are not nodes. -/
inductive Label where
  | program
  | expressionStatement
  | blockStatement
  | emptyStatement
  | returnStatement
  | forStatement
  | variableDeclaration (kind : String)
  | variableDeclarator
  | exportNamed
  | exportDefault
  | functionDeclaration (generator async : Bool)
  | functionExpression (generator async : Bool)
  | arrowFunction (concise async : Bool)
  | classDeclaration
  | classExpression
  | classBody
  | methodDefinition (kind : MethodKind) (isStatic : Bool)
  | identifier (name : String)
  | literal (raw : String)
  | templateLiteral
  | thisExpression
  | superReference
  | member (computed optional : Bool)
  | call (optional : Bool)
  | construct
  | assignment (operator : String)
  | update (operator : UpdateOperator) (leading : Bool)
  | conditional
  | objectExpression
  | arrayExpression
  | property (computed shorthand : Bool)
  | spread
  | cast
  | objectPattern
  | arrayPattern
  | restElement
  | assignmentPattern
  /-- Any other syntax, by its grammar name. -/
  | other (kind : String)
  deriving DecidableEq, Repr

inductive Node where
  | mk (label : Label) (extent : Extent) (children : List (Role × Node))

namespace Node

def label : Node → Label
  | .mk l _ _ => l

def extent : Node → Extent
  | .mk _ e _ => e

def children : Node → List (Role × Node)
  | .mk _ _ cs => cs

def withExtent (n : Node) (e : Extent) : Node := .mk n.label e n.children

def withLabel (n : Node) (l : Label) : Node := .mk l n.extent n.children

def child? (n : Node) (role : Role) : Option Node :=
  (n.children.find? (·.1 == role)).map (·.2)

def childrenIn (n : Node) (role : Role) : List Node :=
  n.children.filterMap fun c => if c.1 = role then some c.2 else none

/-- An identifier without a place in a source. -/
def ofName (name : String) : Node := .mk (.identifier name) .origin []

mutual

def size : Node → Nat
  | .mk _ _ cs => sizeAll cs + 1

def sizeAll : List (Role × Node) → Nat
  | [] => 0
  | (_, n) :: rest => n.size + sizeAll rest

end

mutual

/-- The node and everything below it, each before what it holds. -/
def preorder : Node → List Node
  | .mk l e cs => .mk l e cs :: preorderAll cs

def preorderAll : List (Role × Node) → List Node
  | [] => []
  | (_, n) :: rest => n.preorder ++ preorderAll rest

end

@[simp] theorem label_mk (l : Label) (e : Extent) (cs : List (Role × Node)) :
    (mk l e cs).label = l := rfl

@[simp] theorem extent_mk (l : Label) (e : Extent) (cs : List (Role × Node)) :
    (mk l e cs).extent = e := rfl

@[simp] theorem children_mk (l : Label) (e : Extent) (cs : List (Role × Node)) :
    (mk l e cs).children = cs := rfl

theorem size_pos (n : Node) : 0 < n.size := by
  cases n; simp [size]

theorem size_eq (n : Node) : n.size = sizeAll n.children + 1 := by
  cases n; simp [size]

/-- The number of nodes at and below those of a list. -/
def weight (ns : List Node) : Nat :=
  -- The zero is given: which one is found otherwise depends on what is imported.
  @List.sum Nat _ ⟨0⟩ (ns.map size)

theorem sizeAll_eq_weight (cs : List (Role × Node)) : sizeAll cs = weight (cs.map (·.2)) := by
  induction cs with
  | nil => rfl
  | cons c rest ih => rw [sizeAll, ih, weight, weight, List.map_cons, List.map_cons, List.sum_cons]

theorem weight_children (n : Node) : weight (n.children.map (·.2)) + 1 = n.size := by
  rw [size_eq, sizeAll_eq_weight]

end Node
end MutationLint
