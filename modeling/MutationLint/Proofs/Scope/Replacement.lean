import MutationLint.Proofs.Scope.Likeness

/-! Putting another node in the place of a site, in the program around it. Where look-ups see no
difference between the two nodes, they see none in the program either. -/

namespace MutationLint

def Step.put (t : Step) (n : Node) : Node :=
  .mk t.parent.label t.parent.extent (t.parent.children.set t.index (t.role, n))

namespace Site

def rebuild : List Step → Node → List Step
  | [], _ => []
  | t :: path, n => ⟨t.put n, t.role, t.index⟩ :: rebuild path (t.put n)

def replace (s : Site) (n : Node) : Site := ⟨n, rebuild s.path n⟩

def programWith (s : Site) (n : Node) : Node := (s.replace n).top

theorem replace_root (m n : Node) : (root m).replace n = root n := rfl

/-- Putting a node in the place of a child puts the new parent in the place of the old one. -/
theorem replace_descend (p : Site) (i : Nat) (role : Role) (m n : Node) :
    (p.descend i role m).replace n =
      (p.replace (Step.put ⟨p.node, role, i⟩ n)).descend i role n := rfl

theorem replace_mem_walk {P : Node} {s : Site} (h : s ∈ walk P) (n : Node) :
    s.replace n ∈ walk (s.programWith n) := by
  rw [mem_walk] at h
  induction h generalizing n with
  | refl => exact root_mem_walk n
  | @child p c _ hc ih =>
    obtain ⟨i, role, m, hi, rfl⟩ := mem_children.mp hc
    have hchild : (p.descend i role m).replace n ∈
        (p.replace (Step.put ⟨p.node, role, i⟩ n)).children := by
      refine mem_children.mpr ⟨i, role, n, ?_, replace_descend p i role m n⟩
      have hlt : i < p.node.children.length := (List.getElem?_eq_some_iff.mp hi).1
      simp [replace, Step.put, hlt]
    have htop : (p.descend i role m).programWith n =
        p.programWith (Step.put ⟨p.node, role, i⟩ n) :=
      (top_of_parent? (parent?_of_mem_children hchild)).symm
    rw [htop]
    exact mem_walk_of_mem_children (ih _) hchild

/-! ### What shows of it -/

theorem map_set_of_eq {α β : Type} {f : α → β} {xs : List α} {i : Nat} {a b : α}
    (h : xs[i]? = some a) (hf : f a = f b) : (xs.set i b).map f = xs.map f := by
  obtain ⟨hlt, rfl⟩ := List.getElem?_eq_some_iff.mp h
  rw [List.map_set, ← hf, ← List.getElem_map f, List.set_getElem_self]
  simpa using hlt

theorem surfaces_put {p : Node} {i : Nat} {role : Role} {m n : Node}
    (hi : p.children[i]? = some (role, m)) (h : m.surface = n.surface) :
    p.children.map (fun c => (c.1, c.2.surface)) =
      (Step.put ⟨p, role, i⟩ n).children.map (fun c => (c.1, c.2.surface)) := by
  refine (map_set_of_eq hi ?_).symm
  exact Prod.ext rfl h

/-- A node that is put in the place of one with the same surface does not show. -/
theorem likewise_replace {P : Node} {s : Site} (h : s ∈ walk P) {n : Node}
    (halike : s.node.Alike n) (hsurface : s.node.surface = n.surface) :
    Likewise s (s.replace n) := by
  rw [mem_walk] at h
  induction h generalizing n with
  | refl => exact .top halike
  | @child p c _ hc ih =>
    obtain ⟨i, role, m, hi, rfl⟩ := mem_children.mp hc
    have hchildren := surfaces_put hi hsurface
    exact .step halike (ih (.of_surfaces rfl hchildren) (Node.surface_congr rfl hchildren))

end Site
end MutationLint
