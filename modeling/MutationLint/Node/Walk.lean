import MutationLint.Node.Site

/-! Visiting the nodes of a program. The sites still to be visited wait on a stack; each one visited
is replaced by its children, the first on top. -/

namespace MutationLint.Site

theorem map_node_childrenFrom (s : Site) (cs : List (Role × Node)) :
    ∀ i, (s.childrenFrom i cs).map (·.node) = cs.map (·.2) := by
  induction cs with
  | nil => intro i; rfl
  | cons c rest ih =>
    intro i
    rw [childrenFrom, List.map_cons, List.map_cons, ih]
    rfl

theorem weight_children (s : Site) :
    Node.weight (s.children.map (·.node)) + 1 = s.node.size := by
  rw [children, map_node_childrenFrom, Node.weight_children]

/-- The sites visited from a stack on, in order. -/
def visit : List Site → List Site
  | [] => []
  | s :: rest => s :: visit (s.children ++ rest)
termination_by stack => Node.weight (stack.map (·.node))
decreasing_by
  have := weight_children s
  simp only [Node.weight, List.map_append, List.map_cons, List.sum_append_nat, List.sum_cons]
    at this ⊢
  omega

/-- The sites of a program in document order. -/
def walk (program : Node) : List Site := visit [root program]

def dispatch {α : Type} (handles : Label → List α) (program : Node) : List (Site × α) :=
  (walk program).flatMap fun s => (handles s.label).map (s, ·)

end MutationLint.Site
