import MutationLint.Node.Basic

/-! A node together with its place in a program: the way from it up to the root. Two sites of one
program are the same place exactly when their addresses are equal. -/

namespace MutationLint

/-- One step up: the parent, and the role and position in which it holds the node. -/
structure Step where
  parent : Node
  role : Role
  index : Nat

/-- A node and the steps from it to the root, the nearest first. -/
structure Site where
  node : Node
  path : List Step

/-- Positions among the children, from a node up to the root. -/
abbrev Address := List Nat

namespace Site

def root (n : Node) : Site := ⟨n, []⟩

def label (s : Site) : Label := s.node.label

def address (s : Site) : Address := s.path.map (·.index)

def parent? (s : Site) : Option Site :=
  match s.path with
  | [] => none
  | step :: path => some ⟨step.parent, path⟩

def role? (s : Site) : Option Role := s.path.head?.map (·.role)

def top (s : Site) : Node := (s.path.getLast?.map (·.parent)).getD s.node

def descend (s : Site) (index : Nat) (role : Role) (child : Node) : Site :=
  ⟨child, ⟨s.node, role, index⟩ :: s.path⟩

def childrenFrom (s : Site) : Nat → List (Role × Node) → List Site
  | _, [] => []
  | i, (role, n) :: rest => s.descend i role n :: s.childrenFrom (i + 1) rest

def children (s : Site) : List Site := s.childrenFrom 0 s.node.children

def childrenIn (s : Site) (role : Role) : List Site := s.children.filter (·.role? == some role)

/-- The node and its ancestors up to and including the first that stops the way. -/
def upTo (stops : Label → Bool) : Node → List Step → List Site
  | n, [] => [⟨n, []⟩]
  | n, step :: path =>
    ⟨n, step :: path⟩ :: if stops n.label then [] else upTo stops step.parent path

def ancestors (s : Site) : List Site :=
  match s.parent? with
  | none => []
  | some p => upTo (fun _ => false) p.node p.path

end Site
end MutationLint
