import MutationLint.Proofs.Node.Extents

/-! Extents nest. Where each child of a tree stands inside its parent, so does each node of the
program built from it, also where a node is made over parts of a tree, moved or out of brackets. -/

namespace MutationLint

namespace Extent

theorem Within.refl (e : Extent) : e.Within e := ⟨Int.le_refl _, Int.le_refl _⟩

theorem Within.trans {a b c : Extent} (h : a.Within b) (h' : b.Within c) : a.Within c :=
  ⟨Int.le_trans h'.1 h.1, Int.le_trans h.2 h'.2⟩

instance (a b : Extent) : Decidable (a.Within b) :=
  inferInstanceAs (Decidable (b.start ≤ a.start ∧ a.stop ≤ b.stop))

end Extent

namespace SyntaxTree

def Nested (t : SyntaxTree) : Prop :=
  ∀ s ∈ t.preorder, ∀ c ∈ s.children, c.extent.Within s.extent

instance (t : SyntaxTree) : Decidable t.Nested :=
  inferInstanceAs (Decidable (∀ s ∈ t.preorder, ∀ c ∈ s.children, c.extent.Within s.extent))

theorem Nested.of_mem {t s : SyntaxTree} (h : t.Nested) (hs : s ∈ t.preorder) : s.Nested :=
  fun a ha => h a (mem_preorder_trans ha hs)

theorem Nested.within {t s : SyntaxTree} (h : t.Nested) (hs : s ∈ t.preorder) :
    s.extent.Within t.extent := by
  induction hn : t.size using Nat.strongRecOn generalizing t with
  | _ k ih =>
    rw [preorder_eq] at hs
    rcases List.mem_cons.mp hs with rfl | hs
    · exact .refl _
    · obtain ⟨c, hc, hs⟩ := List.mem_flatMap.mp hs
      have hct : c ∈ t.preorder := mem_preorder_of_child hc c.self_mem_preorder
      have hsc := ih c.size (hn ▸ size_lt_of_mem hc) (h.of_mem hct) hs rfl
      exact hsc.trans (h t t.self_mem_preorder c hc)

end SyntaxTree

namespace Node

def Nested (n : Node) : Prop := ∀ m ∈ n.preorder, ∀ c ∈ m.children, c.2.extent.Within m.extent

theorem nested_mk {l : Label} {e : Extent} {cs : List (Role × Node)} :
    (mk l e cs).Nested ↔ ∀ c ∈ cs, c.2.extent.Within e ∧ c.2.Nested := by
  rw [Nested, preorder, preorderAll_eq, List.forall_mem_cons, List.forall_mem_flatMap]
  exact ⟨fun h c hc => ⟨h.1 c hc, h.2 c hc⟩,
    fun h => ⟨fun c hc => (h c hc).1, fun c hc => (h c hc).2⟩⟩

/-- The node stands inside the extent, and what it holds is nested. -/
def NestedIn (e : Extent) (n : Node) : Prop := n.extent.Within e ∧ n.Nested

theorem nestedIn_mk {l : Label} {e : Extent} {cs : List (Role × Node)}
    (h : ∀ c ∈ cs, c.2.NestedIn e) : (mk l e cs).NestedIn e :=
  ⟨.refl e, nested_mk.mpr h⟩

theorem NestedIn.mono {e e' : Extent} {n : Node} (h : n.NestedIn e) (he : e.Within e') :
    n.NestedIn e' := ⟨h.1.trans he, h.2⟩

theorem NestedIn.asDeclaration {e : Extent} {n : Node} (h : n.NestedIn e) :
    n.asDeclaration.NestedIn e := by
  obtain ⟨l, e', cs⟩ := n
  unfold Node.asDeclaration
  split
  · exact ⟨h.1, nested_mk.mpr (nested_mk.mp h.2)⟩
  · exact ⟨h.1, nested_mk.mpr (nested_mk.mp h.2)⟩
  · exact h

theorem NestedIn.withExtent {e : Extent} {n : Node} (h : n.NestedIn e) :
    (n.withExtent e).NestedIn e := by
  obtain ⟨l, e', cs⟩ := n
  refine nestedIn_mk fun c hc => ?_
  obtain ⟨hwithin, hnested⟩ := nested_mk.mp h.2 c hc
  exact ⟨hwithin.trans h.1, hnested⟩

end Node

namespace SyntaxTree

/-- From a nested tree, everything is built inside the tree. -/
theorem nestedIn_invariant :
    BuildInvariant fun t n => t.Nested → n.NestedIn t.extent where
  leaf t s label hs ht := by
    have hmem : s ∈ t.preorder := by
      rcases hs with rfl | hs
      · exact self_mem_preorder _
      · exact mem_preorder_of_spelled hs
    exact (Node.nestedIn_mk (List.forall_mem_nil _)).mono (ht.within hmem)
  parent _ _ _ _ _ _ hchildren ht :=
    Node.nestedIn_mk fun c hc => hchildren c hc ht
  inner t c n hc hn ht := by
    have hmem := mem_preorder_of_layout hc
    exact (hn (ht.of_mem hmem)).mono (ht.within hmem)
  declared _ _ hn ht := (hn ht).asDeclaration
  moved _ _ hn ht := (hn ht).withExtent

theorem layout_of_program_root {t : SyntaxTree} (h : t.kind = "program") :
    t.layout = .node .program (Layout.all .body t.content) := by
  have hform : t.form = .program := by rw [form, h]; rfl
  rw [layout, hform]

theorem build_of_program_root {source : Source} {t : SyntaxTree} {program : Node}
    (root : t.kind = "program") (h : t.program source = .ok program) :
    t.build source = .ok (some program) := by
  obtain ⟨b, hb, hp⟩ := exists_of_bind_eq_ok h
  have hassemble := (build_eq source t).symm.trans hb
  rw [layout_of_program_root root] at hassemble
  obtain ⟨children, -, rfl⟩ := Layout.of_assemble_node hassemble
  obtain rfl := Except.ok.inj hp
  rw [hb]
  rfl

/-- Every node of a program built from a nested tree has the stretch of bytes and the position of
some node of the tree, and every node but the root stands inside its parent. -/
theorem program_extents_nest {source : Source} {t : SyntaxTree} {program : Node}
    (root : t.kind = "program") (nested : t.Nested) (h : t.program source = .ok program) :
    (∀ n ∈ program.preorder, ∃ s ∈ t.preorder,
      (n.extent.start, n.extent.stop) = (s.extent.start, s.extent.stop) ∧
      (n.extent.line, n.extent.column) = (s.extent.row + 1, s.extent.column)) ∧
    ∀ s ∈ Site.walk program, ∀ p, s.parent? = some p → s.node.extent.Within p.node.extent := by
  have hbuilt := build_of_program_root root h
  constructor
  · have hplaced := (placed_invariant fun e => ∃ s ∈ t.preorder, s.extent = e).of_build t program
      hbuilt fun s hs => ⟨s, hs, rfl⟩
    intro n hn
    obtain ⟨s, hs, he⟩ := hplaced n hn
    exact ⟨s, hs, by rw [he], by rw [he]; rfl⟩
  · obtain ⟨-, hnested⟩ := nestedIn_invariant.of_build t program hbuilt nested
    intro s hs p hp
    have hparent : p.node ∈ program.preorder := by
      rw [← Site.map_node_walk]
      exact List.mem_map_of_mem (Site.mem_walk_of_parent? hs hp)
    obtain ⟨i, role, n, hn, rfl⟩ := Site.mem_children.mp (Site.mem_children_of_parent? hs hp)
    exact hnested p.node hparent (role, n) (List.mem_of_getElem? hn)

/-- `(x: T) => ({x, m() {}})`, whose nodes come from a parameter, out of brackets, from a property
that spells its name once, and from a method. -/
def maker : SyntaxTree :=
  .mk "program" true none ⟨0, 23, 0, 0⟩
    [.mk "expression_statement" true none ⟨0, 23, 0, 0⟩
      [.mk "arrow_function" true none ⟨0, 23, 0, 0⟩
        [.mk "formal_parameters" true (some "parameters") ⟨0, 6, 0, 0⟩
          [.mk "required_parameter" true none ⟨1, 5, 0, 1⟩
            [.mk "identifier" true (some "pattern") ⟨1, 2, 0, 1⟩ [],
              .mk "type_annotation" true (some "type") ⟨2, 5, 0, 2⟩ []]],
          .mk "parenthesized_expression" true (some "body") ⟨10, 23, 0, 10⟩
            [.mk "object" true none ⟨11, 22, 0, 11⟩
              [.mk "shorthand_property_identifier" true none ⟨12, 13, 0, 12⟩ [],
                .mk "method_definition" true none ⟨15, 21, 0, 15⟩
                  [.mk "property_identifier" true (some "name") ⟨15, 16, 0, 15⟩ [],
                    .mk "formal_parameters" true (some "parameters") ⟨16, 18, 0, 16⟩ [],
                    .mk "statement_block" true (some "body") ⟨19, 21, 0, 19⟩ []]]]]]]

/-- The parameter `x` has moved to the extent of `x: T`. -/
def makerProgram : Node :=
  .mk .program ⟨0, 23, 0, 0⟩
    [(.body, .mk .expressionStatement ⟨0, 23, 0, 0⟩
      [(.expression, .mk (.arrowFunction true false) ⟨0, 23, 0, 0⟩
        [(.params, .mk (.identifier "x") ⟨1, 5, 0, 1⟩ []),
          (.body, .mk .objectExpression ⟨11, 22, 0, 11⟩
            [(.properties, .mk (.property false true) ⟨12, 13, 0, 12⟩
              [(.key, .mk (.identifier "x") ⟨12, 13, 0, 12⟩ []),
                (.value, .mk (.identifier "x") ⟨12, 13, 0, 12⟩ [])]),
              (.properties, .mk (.methodDefinition .method false) ⟨15, 21, 0, 15⟩
                [(.key, .mk (.identifier "m") ⟨15, 16, 0, 15⟩ []),
                  (.value, .mk (.functionExpression false false) ⟨15, 21, 0, 15⟩
                    [(.body, .mk .blockStatement ⟨19, 21, 0, 19⟩ [])])])])])])]

theorem maker_extents_nest : maker.kind = "program" ∧ maker.Nested ∧
    maker.program (.ofText "(x: T) => ({x, m() {}})") = .ok makerProgram ∧
    (∀ n ∈ makerProgram.preorder, ∃ s ∈ maker.preorder,
      (n.extent.start, n.extent.stop) = (s.extent.start, s.extent.stop) ∧
      (n.extent.line, n.extent.column) = (s.extent.row + 1, s.extent.column)) ∧
    ∀ s ∈ Site.walk makerProgram, ∀ p, s.parent? = some p →
      s.node.extent.Within p.node.extent :=
  have nested : maker.Nested := by decide
  have built : maker.program (.ofText "(x: T) => ({x, m() {}})") = .ok makerProgram := by rfl
  ⟨rfl, nested, built, program_extents_nest rfl nested built⟩

end SyntaxTree
end MutationLint
