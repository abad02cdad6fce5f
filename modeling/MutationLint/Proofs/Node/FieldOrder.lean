import MutationLint.Proofs.Node.Roles

/-! The order of a node's children. A kind of node has its parts in a fixed order, and every node of
a program holds its children part by part, those of a list as they stand in it. -/

namespace MutationLint

namespace Label

def roles : Label → List Role
  | .functionDeclaration _ _ | .functionExpression _ _ => [.id, .params, .body]
  | .arrowFunction _ _ => [.params, .body]
  | l => l.singleRoles ++ l.listRole?.toList

theorem mem_roles {l : Label} {r : Role} :
    r ∈ l.roles ↔ r ∈ l.singleRoles ∨ l.listRole? = some r := by
  cases l <;> simp [roles, singleRoles, listRole?, eq_comm] <;> grind

theorem roles_nodup (l : Label) : l.roles.Nodup := by
  cases l <;> simp [roles, singleRoles, listRole?]

theorem roles_settle (l : Label) (children : List (Role × Node)) :
    (l.settle children).roles = l.roles := by
  unfold settle
  split
  · split
    · split_ifs <;> rfl
    · rfl
  · rfl

/-- Nothing stands after what it has to stand before. -/
def InOrder (l : Label) (held : List Role) : Prop :=
  held.Pairwise fun a b => l.roles.idxOf a ≤ l.roles.idxOf b

end Label

def Node.byRole (n : Node) : List Node := n.label.roles.flatMap n.childrenIn

/-! ### Layouts -/

namespace SyntaxTree

open Layout

theorem inOrder_layout (t : SyntaxTree) : t.layout.Meets Label.InOrder := by
  unfold layout
  cases hf : t.form <;>
    simp only [functionParts, classParts, exportLayout, methodLayout, updateLayout, pairLayout,
      defaultedLayout]
  all_goals
    (try split) <;>
    (try split) <;>
    simp only [Meets, partsMeet_nil, partsMeet_cons, partsMeet_append, partsMeet_all,
      partsMeet_one, meets_piece, meets_group, and_true, true_and, and_self] <;>
    simp [Label.InOrder, roles_all, roles_one, roles_pieces, Label.roles, Label.singleRoles,
      Label.listRole?, List.pairwise_append, List.pairwise_replicate, List.mem_replicate]
  -- of the clauses of a loop header any may be missing
  · rintro - b (⟨-, rfl⟩ | ⟨-, rfl⟩) <;> decide

theorem roleCondition_inOrder : RoleCondition Label.InOrder where
  nil _ := List.Pairwise.nil
  sublist h hs := List.Pairwise.sublist hs h
  settle children h := by
    rw [Label.InOrder, Label.roles_settle]
    exact h
  classDeclaration h := h
  functionDeclaration h := h
  layout := inOrder_layout
  parameter := List.pairwise_pair.mpr (by decide)
  program := List.pairwise_singleton _ _

end SyntaxTree

/-! ### Nodes -/

namespace Node

def heldIn (cs : List (Role × Node)) (r : Role) : List Node :=
  cs.filterMap fun c => if c.1 = r then some c.2 else none

theorem heldIn_cons (role : Role) (n : Node) (rest : List (Role × Node)) (r : Role) :
    heldIn ((role, n) :: rest) r = if role = r then n :: heldIn rest r else heldIn rest r := by
  unfold heldIn
  rw [List.filterMap_cons]
  split_ifs <;> rfl

theorem flatMap_heldIn_eq_nil {ps : List Role} {cs : List (Role × Node)}
    (h : ∀ c ∈ cs, c.1 ∉ ps) : ps.flatMap (heldIn cs) = [] := by
  refine List.flatMap_eq_nil_iff.mpr fun r hr => List.filterMap_eq_nil_iff.mpr fun c hc => ?_
  rw [if_neg]
  rintro rfl
  exact h c hc hr

theorem flatMap_heldIn {ps : List Role} {cs : List (Role × Node)} (hmem : ∀ c ∈ cs, c.1 ∈ ps)
    (hnodup : ps.Nodup)
    (horder : (cs.map (·.1)).Pairwise fun a b => ps.idxOf a ≤ ps.idxOf b) :
    ps.flatMap (heldIn cs) = cs.map (·.2) := by
  induction cs with
  | nil => exact flatMap_heldIn_eq_nil (List.forall_mem_nil _)
  | cons c rest ih =>
    obtain ⟨role, n⟩ := c
    rw [List.map_cons, List.pairwise_cons] at horder
    rw [List.forall_mem_cons] at hmem
    have ih := ih hmem.2 horder.2
    obtain ⟨before, after, rfl⟩ := List.append_of_mem (show role ∈ ps from hmem.1)
    rw [List.nodup_append, List.nodup_cons] at hnodup
    obtain ⟨-, ⟨hafter, -⟩, hdisjoint⟩ := hnodup
    have hrole : role ∉ before := fun h => hdisjoint role h role List.mem_cons_self rfl
    -- nothing that follows belongs to a part before this one
    have hbefore : ∀ d ∈ rest, d.1 ∉ before := by
      intro d hd hb
      have hle := horder.1 d.1 (List.mem_map_of_mem hd)
      rw [List.idxOf_append_of_notMem hrole, List.idxOf_append_of_mem hb] at hle
      have hlt := List.idxOf_lt_length_of_mem hb
      omega
    have hrest : after.flatMap (heldIn ((role, n) :: rest)) = after.flatMap (heldIn rest) := by
      refine List.flatMap_congr fun r hr => ?_
      rw [heldIn_cons, if_neg]
      rintro rfl
      exact hafter hr
    rw [List.flatMap_append, List.flatMap_cons, flatMap_heldIn_eq_nil hbefore,
      List.nil_append] at ih
    rw [List.flatMap_append, List.flatMap_cons,
      flatMap_heldIn_eq_nil (List.forall_mem_cons.mpr ⟨hrole, hbefore⟩), List.nil_append,
      heldIn_cons, if_pos rfl, hrest, List.cons_append, ih, List.map_cons]

end Node

namespace SyntaxTree

/-- A site of a built program has its children part by part, in the order of the parts. -/
theorem map_children_eq_byRole {source : Source} {t : SyntaxTree} {program : Node} {s : Site}
    (h : t.program source = .ok program) (hs : s ∈ Site.walk program) :
    s.node.children.map (·.2) = s.node.byRole := by
  refine (Node.flatMap_heldIn (fun c hc => ?_) s.node.label.roles_nodup
    (roleCondition_inOrder.of_mem_walk h hs)).symm
  exact Label.mem_roles.mpr ((holds_of_mem_walk h hs).known c.1 (List.mem_map_of_mem hc))

end SyntaxTree
end MutationLint
