import MutationLint.Node.Walk

/-! Giving every node of a program its parent. A node is known by its address. Nodes that are linked
wait on a stack, the last child on top, and each one that is taken off links its own children. -/

namespace MutationLint.Node

def offspringFrom (above : Address) : Nat → List (Role × Node) → List (Address × Node)
  | _, [] => []
  | i, (_, n) :: rest => (i :: above, n) :: offspringFrom above (i + 1) rest

/-- The children of a node at an address, each with its own. -/
def offspring (here : Address) (n : Node) : List (Address × Node) :=
  offspringFrom here 0 n.children

theorem map_snd_offspringFrom (above : Address) (cs : List (Role × Node)) :
    ∀ i, (offspringFrom above i cs).map (·.2) = cs.map (·.2) := by
  induction cs with
  | nil => intro i; rfl
  | cons c rest ih =>
    intro i
    rw [offspringFrom, List.map_cons, List.map_cons, ih]

theorem weight_offspring (here : Address) (n : Node) :
    weight ((offspring here n).map (·.2)) + 1 = n.size := by
  rw [offspring, map_snd_offspringFrom, weight_children]

/-- The links that are made from a stack on, in order: a node's address and that of its parent. -/
def link : List (Address × Node) → List (Address × Address)
  | [] => []
  | (a, n) :: rest =>
    (offspring a n).map (fun c => (c.1, a)) ++ link ((offspring a n).reverse ++ rest)
termination_by stack => weight (stack.map (·.2))
decreasing_by
  have := weight_offspring a n
  simp only [weight, List.map_append, List.map_reverse, List.map_cons, List.sum_append_nat,
    List.sum_reverse, List.sum_cons] at this ⊢
  omega

def links (program : Node) : List (Address × Address) := link [([], program)]

end MutationLint.Node
