import MutationLint.Node.Layout
import MutationLint.Source

/-! Building the node model of a syntax tree. Building fails only where a name or literal is not
text, or a declaration has no children to tell its kind. -/

namespace MutationLint

inductive BuildFault where
  | notText (fault : Text.Utf8.Fault)
  | kindless
  deriving DecidableEq, Repr

/-- The outcome of building a tree, which may stand for no node. -/
abbrev Built := Except BuildFault (Option Node)

namespace Node

/-- A named function or class expression as the declaration it amounts to. -/
def asDeclaration (n : Node) : Node :=
  match n.label, n.child? .id with
  | .classExpression, some _ => n.withLabel .classDeclaration
  | .functionExpression g a, some _ => n.withLabel (.functionDeclaration g a)
  | _, _ => n

end Node

/-- A plain method under the key `constructor` is the constructor. -/
def Label.settle (label : Label) (children : List (Role × Node)) : Label :=
  match label with
  | .methodDefinition .method s =>
    match children.find? (·.1 == .key) with
    | some (_, key) =>
      if key.label = .identifier "constructor" then .methodDefinition .constructor s else label
    | none => label
  | _ => label

namespace Layout

/-- Makes the children in order, leaving out those that come to nothing. -/
def collect {α β : Type} (make : α → Except BuildFault (Option β)) :
    List (Role × α) → Except BuildFault (List (Role × β))
  | [] => .ok []
  | (role, a) :: rest => do
    let made ← make a
    let others ← collect make rest
    return match made with
      | some b => (role, b) :: others
      | none => others

def spell (source : Source) (extent : Extent) : Except BuildFault String :=
  (source.text extent).mapError .notText

section
variable (source : Source) (build : SyntaxTree → Built)

def makePiece : Piece → Built
  | .built t => build t
  | .declared t => do return (← build t).map Node.asDeclaration
  | .spelled t => do return some (.mk (.identifier (← spell source t.extent)) t.extent [])

def makePart (extent : Extent) : Part → Built
  | .piece p => makePiece source build p
  | .group label pieces => do
    return some (.mk label extent (← collect (makePiece source build) pieces))

/-- Carries a layout out, given how subtrees are built. -/
def assemble (extent : Extent) : Layout → Built
  | .nothing => .ok none
  | .inner t => build t
  | .identifier => do return some (.mk (.identifier (← spell source extent)) extent [])
  | .literal => do return some (.mk (.literal (← spell source extent)) extent [])
  | .node label parts => do
    let children ← collect (makePart source build extent) parts
    return some (.mk (label.settle children) extent children)
  | .parameter pattern value => do
    let pattern ← (pattern.map build).getD (.ok none)
    let value ← (value.map build).getD (.ok none)
    return match value with
      | none => pattern.map (·.withExtent extent)
      | some v =>
        some (.mk .assignmentPattern extent (pattern.toList.map (.left, ·) ++ [(.right, v)]))
  | .kindless => .error .kindless

end
end Layout

namespace SyntaxTree

def buildUpTo (source : Source) : Nat → SyntaxTree → Built
  | 0, _ => .ok none
  | height + 1, t => t.layout.assemble source (buildUpTo source height) t.extent

/-- The node a tree stands for. A tree is no higher than its size. -/
def build (source : Source) (t : SyntaxTree) : Built := buildUpTo source t.size t

/-- The program of a tree; a root of another form becomes its only statement. -/
def program (source : Source) (t : SyntaxTree) : Except BuildFault Node := do
  match ← t.build source with
  | some n => return if n.label = .program then n else .mk .program .origin [(.body, n)]
  | none => return .mk .program .origin []

end SyntaxTree
end MutationLint
