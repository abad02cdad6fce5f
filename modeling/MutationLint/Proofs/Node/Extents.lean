import MutationLint.Proofs.Node.Making

/-! Where the nodes of a program stand: each node built from a tree has the extent of some node of
the tree. -/

namespace MutationLint

namespace Node

/-- Every node at or below this one stands at an extent of the given ones. -/
def Placed (E : Extent → Prop) (n : Node) : Prop := ∀ m ∈ n.preorder, E m.extent

variable {E : Extent → Prop}

theorem placed_mk {l : Label} {e : Extent} {cs : List (Role × Node)} :
    (mk l e cs).Placed E ↔ E e ∧ ∀ c ∈ cs, c.2.Placed E := by
  rw [Placed, preorder, preorderAll_eq, List.forall_mem_cons, extent_mk, List.forall_mem_flatMap]
  rfl

theorem Placed.asDeclaration {n : Node} (h : n.Placed E) : n.asDeclaration.Placed E := by
  obtain ⟨l, e, cs⟩ := n
  unfold Node.asDeclaration
  split
  · exact placed_mk.mpr (placed_mk.mp h)
  · exact placed_mk.mpr (placed_mk.mp h)
  · exact h

theorem Placed.withExtent {n : Node} (h : n.Placed E) {e : Extent} (he : E e) :
    (n.withExtent e).Placed E := by
  obtain ⟨l, e', cs⟩ := n
  exact placed_mk.mpr ⟨he, (placed_mk.mp h).2⟩

theorem Placed.child {n c : Node} (h : n.Placed E) {role : Role} (hc : n.child? role = some c) :
    c.Placed E := by
  obtain ⟨x, hx, rfl⟩ := Option.map_eq_some_iff.mp hc
  obtain ⟨l, e, cs⟩ := n
  exact (placed_mk.mp h).2 x (List.mem_of_find?_eq_some hx)

theorem Placed.self {n : Node} (h : n.Placed E) : E n.extent := by
  obtain ⟨l, e, cs⟩ := n
  exact (placed_mk.mp h).1

theorem Placed.site {program : Node} (h : program.Placed E) {s : Site}
    (hs : s ∈ Site.walk program) : s.node.Placed E := by
  induction Site.mem_walk.mp hs with
  | refl => exact h
  | @child p c hp hc ih =>
    obtain ⟨i, role, n, hn, rfl⟩ := Site.mem_children.mp hc
    have hp := ih (Site.mem_walk.mpr hp)
    obtain ⟨pn, path⟩ := p
    obtain ⟨l, e, cs⟩ := pn
    exact (placed_mk.mp hp).2 (role, n) (List.mem_of_getElem? hn)

end Node

namespace SyntaxTree

theorem placed_invariant (E : Extent → Prop) :
    BuildInvariant fun t n => (∀ s ∈ t.preorder, E s.extent) → n.Placed E where
  leaf t s _ hs hE := by
    have hmem : s ∈ t.preorder := by
      rcases hs with rfl | hs
      · exact self_mem_preorder _
      · exact mem_preorder_of_spelled hs
    exact Node.placed_mk.mpr ⟨hE s hmem, List.forall_mem_nil _⟩
  parent t _ _ _ _ _ hchildren hE :=
    Node.placed_mk.mpr ⟨hE t t.self_mem_preorder, fun c hc => hchildren c hc hE⟩
  inner _ _ _ hc hn hE := hn fun s hs => hE s (mem_preorder_trans hs (mem_preorder_of_layout hc))
  declared _ _ hn hE := (hn hE).asDeclaration
  moved t _ hn hE := (hn hE).withExtent (hE t t.self_mem_preorder)

/-- Every node of a program stands where some node of the tree does, or, where it only holds the
program together, at the origin. -/
theorem placed_program {source : Source} {t : SyntaxTree} {program : Node}
    (h : t.program source = .ok program) :
    program.Placed fun e => e = .origin ∨ ∃ s ∈ t.preorder, s.extent = e := by
  have hkept {n : Node} (hn : t.build source = .ok (some n)) :
      n.Placed fun e => e = .origin ∨ ∃ s ∈ t.preorder, s.extent = e :=
    (placed_invariant _).of_build t n hn fun s hs => Or.inr ⟨s, hs, rfl⟩
  rcases program_cases h with rfl | ⟨n, hn, ⟨-, rfl⟩ | ⟨-, rfl⟩⟩
  · exact Node.placed_mk.mpr ⟨Or.inl rfl, List.forall_mem_nil _⟩
  · exact hkept hn
  · exact Node.placed_mk.mpr ⟨Or.inl rfl, List.forall_mem_singleton.mpr (hkept hn)⟩

end SyntaxTree
end MutationLint
