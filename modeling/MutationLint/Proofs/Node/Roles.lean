import MutationLint.Node.Names
import MutationLint.Proofs.Node.Making

/-! The roles of a program's nodes. A condition on the kind of a node and the roles it holds, which
every layout meets and fewer roles do not break, holds of all nodes of a program. So, whatever tree
a program is built from, each of its nodes holds children only in the roles of its kind, and one
child at most in a role that is held once. -/

namespace MutationLint

/-! ### Conditions on roles -/

section
variable (C : Label → List Role → Prop)

def Part.Meets : Part → Prop
  | .piece _ => True
  | .group label pieces => C label (pieces.map (·.1))

namespace Layout

def PartsMeet (parts : List (Role × Part)) : Prop := ∀ p ∈ parts, p.2.Meets C

def Meets : Layout → Prop
  | .node label parts => C label (parts.map (·.1)) ∧ PartsMeet C parts
  | _ => True

theorem partsMeet_nil : PartsMeet C [] := List.forall_mem_nil _

theorem partsMeet_cons {role : Role} {part : Part} {parts : List (Role × Part)} :
    PartsMeet C ((role, part) :: parts) ↔ part.Meets C ∧ PartsMeet C parts := List.forall_mem_cons

theorem partsMeet_append {a b : List (Role × Part)} :
    PartsMeet C (a ++ b) ↔ PartsMeet C a ∧ PartsMeet C b := List.forall_mem_append

theorem partsMeet_all (role : Role) (ts : List SyntaxTree) : PartsMeet C (all role ts) := by
  intro p hp
  obtain ⟨t, -, rfl⟩ := List.mem_map.mp hp
  trivial

theorem partsMeet_one (role : Role) (t? : Option SyntaxTree) : PartsMeet C (one role t?) :=
  partsMeet_all C role _

theorem meets_piece (p : Piece) : (Part.piece p).Meets C := trivial

theorem meets_group {label : Label} {ps : List (Role × Piece)} :
    (Part.group label ps).Meets C ↔ C label (ps.map (·.1)) := Iff.rfl

end Layout

def Node.Meets (n : Node) : Prop := ∀ m ∈ n.preorder, C m.label (m.children.map (·.1))

/-- A condition that fewer roles, the kinds of declarations and settled kinds do not break, and that
the layouts of all trees meet. -/
structure RoleCondition : Prop where
  nil : ∀ l, C l []
  sublist : ∀ {l held fewer}, C l held → fewer.Sublist held → C l fewer
  settle : ∀ {l held} children, C l held → C (l.settle children) held
  classDeclaration : ∀ {held}, C .classExpression held → C .classDeclaration held
  functionDeclaration : ∀ {g a held}, C (.functionExpression g a) held →
    C (.functionDeclaration g a) held
  layout : ∀ t : SyntaxTree, t.layout.Meets C
  parameter : C .assignmentPattern [.left, .right]
  program : C .program [.body]

variable {C}

theorem Node.meets_mk {l : Label} {e : Extent} {cs : List (Role × Node)} :
    (mk l e cs).Meets C ↔ C l (cs.map (·.1)) ∧ ∀ c ∈ cs, c.2.Meets C := by
  rw [Meets, preorder, preorderAll_eq, List.forall_mem_cons, label_mk, children_mk,
    List.forall_mem_flatMap]
  rfl

namespace RoleCondition

theorem of_over (h : RoleCondition C) {t : SyntaxTree} {label : Label} {held : List Role}
    (hover : t.layout.Over label held) : C label held := by
  have hl := h.layout t
  generalize t.layout = l at hover hl
  cases hover with
  | node children => exact h.settle children hl.1
  | group hmem => exact hl.2 _ hmem
  | parameter => exact h.parameter

theorem asDeclaration (h : RoleCondition C) {n : Node} (hn : n.Meets C) :
    n.asDeclaration.Meets C := by
  obtain ⟨l, e, cs⟩ := n
  obtain ⟨hroles, hcs⟩ := Node.meets_mk.mp hn
  unfold Node.asDeclaration
  split
  · rename_i hl _
    cases hl
    exact Node.meets_mk.mpr ⟨h.classDeclaration hroles, hcs⟩
  · rename_i hl _
    cases hl
    exact Node.meets_mk.mpr ⟨h.functionDeclaration hroles, hcs⟩
  · exact hn

theorem invariant (h : RoleCondition C) : BuildInvariant fun _ n => n.Meets C where
  leaf _ _ l _ := Node.meets_mk.mpr ⟨h.nil l, List.forall_mem_nil _⟩
  parent _ _ _ _ hover hroles hchildren :=
    Node.meets_mk.mpr ⟨h.sublist (h.of_over hover) hroles, hchildren⟩
  inner _ _ _ _ hn := hn
  declared _ _ hn := h.asDeclaration hn
  moved _ n hn := by
    obtain ⟨l, e, cs⟩ := n
    exact Node.meets_mk.mpr (Node.meets_mk.mp hn)

theorem of_program (h : RoleCondition C) {source : Source} {t : SyntaxTree} {program : Node}
    (hp : t.program source = .ok program) : program.Meets C := by
  rcases SyntaxTree.program_cases hp with rfl | ⟨n, hn, ⟨-, rfl⟩ | ⟨-, rfl⟩⟩
  · exact Node.meets_mk.mpr ⟨h.nil _, List.forall_mem_nil _⟩
  · exact h.invariant.of_build t program hn
  · have hmeets := h.invariant.of_build t n hn
    exact Node.meets_mk.mpr ⟨h.program, List.forall_mem_singleton.mpr hmeets⟩

theorem of_mem_walk (h : RoleCondition C) {source : Source} {t : SyntaxTree} {program : Node}
    (hp : t.program source = .ok program) {s : Site} (hs : s ∈ Site.walk program) :
    C s.label (s.node.children.map (·.1)) := by
  refine h.of_program hp s.node ?_
  rw [← Site.map_node_walk]
  exact List.mem_map_of_mem hs

end RoleCondition
end

namespace Layout

theorem roles_all (role : Role) (ts : List SyntaxTree) :
    (all role ts).map (·.1) = List.replicate ts.length role := by
  simp [all, Function.comp_def, List.map_const']

theorem roles_one (role : Role) (t? : Option SyntaxTree) :
    (one role t?).map (·.1) = List.replicate t?.toList.length role := roles_all role _

theorem roles_pieces (role : Role) (ts : List SyntaxTree) :
    (pieces role ts).map (·.1) = List.replicate ts.length role := by
  simp [pieces, Function.comp_def, List.map_const']

end Layout

/-! ### The roles of a kind -/

structure Label.Holds (l : Label) (roles : List Role) : Prop where
  known : ∀ r ∈ roles, r ∈ l.singleRoles ∨ l.listRole? = some r
  once : ∀ r ∈ l.singleRoles, roles.count r ≤ 1

namespace Label

theorem holds_iff {l : Label} {roles : List Role} : l.Holds roles ↔
    (∀ r ∈ roles, r ∈ l.singleRoles ∨ l.listRole? = some r) ∧
      ∀ r ∈ l.singleRoles, roles.count r ≤ 1 :=
  ⟨fun h => ⟨h.known, h.once⟩, fun h => ⟨h.1, h.2⟩⟩

theorem Holds.sublist {l : Label} {roles fewer : List Role} (h : l.Holds roles)
    (hs : fewer.Sublist roles) : l.Holds fewer :=
  ⟨fun r hr => h.known r (hs.subset hr), fun r hr => (hs.count_le r).trans (h.once r hr)⟩

theorem Holds.of_roles {l l' : Label} {roles : List Role} (h : l.Holds roles)
    (hsingle : l'.singleRoles = l.singleRoles) (hlist : l'.listRole? = l.listRole?) :
    l'.Holds roles := by
  refine ⟨?_, ?_⟩
  · rw [hsingle, hlist]
    exact h.known
  · rw [hsingle]
    exact h.once

theorem Holds.settle {l : Label} {roles : List Role} (h : l.Holds roles)
    (children : List (Role × Node)) : (l.settle children).Holds roles := by
  unfold Label.settle
  split
  · split
    · split_ifs
      · exact h.of_roles rfl rfl
      · exact h
    · exact h
  · exact h

end Label

namespace Node

theorem child?_of_mem {n m : Node} {role : Role} (h : (role, m) ∈ n.children)
    (once : (n.children.map (·.1)).count role ≤ 1) : n.child? role = some m := by
  unfold child?
  generalize n.children = cs at h once ⊢
  induction cs with
  | nil => cases h
  | cons c rest ih =>
    rw [List.map_cons, List.count_cons] at once
    rcases List.mem_cons.mp h with rfl | h
    · simp
    · have hmem : role ∈ rest.map (·.1) := List.mem_map.mpr ⟨_, h, rfl⟩
      have hpos := List.count_pos_iff.mpr hmem
      by_cases hc : c.1 = role
      · simp only [hc, beq_self_eq_true, if_true] at once
        omega
      · rw [List.find?_cons_of_neg (by simpa using hc)]
        exact ih h (by omega)

end Node

theorem length_toList_le_one {α : Type} (a? : Option α) : a?.toList.length ≤ 1 := by
  cases a? <;> simp

namespace SyntaxTree

open Layout

/-- A layout gives a node no role that its kind does not know, and no single role twice. -/
theorem holds_layout (t : SyntaxTree) : t.layout.Meets Label.Holds := by
  unfold layout
  cases hf : t.form <;>
    simp only [functionParts, classParts, exportLayout, methodLayout, updateLayout, pairLayout,
      defaultedLayout]
  all_goals
    (try split) <;>
    (try split) <;>
    simp only [Meets, partsMeet_nil, partsMeet_cons, partsMeet_append, partsMeet_all,
      partsMeet_one, meets_piece, meets_group, and_true, true_and, and_self] <;>
    simp [Label.holds_iff, roles_all, roles_one, roles_pieces, Label.singleRoles, Label.listRole?,
      List.count_replicate] <;>
    grind [length_toList_le_one]

theorem roleCondition_holds : RoleCondition Label.Holds where
  nil _ := ⟨List.forall_mem_nil _, by simp⟩
  sublist h hs := h.sublist hs
  settle children h := h.settle children
  classDeclaration h := h.of_roles rfl rfl
  functionDeclaration h := h.of_roles rfl rfl
  layout := holds_layout
  parameter := ⟨by decide, by decide⟩
  program := ⟨by decide, by decide⟩

theorem holds_of_mem_walk {source : Source} {t : SyntaxTree} {program : Node} {s : Site}
    (h : t.program source = .ok program) (hs : s ∈ Site.walk program) :
    s.label.Holds (s.node.children.map (·.1)) := roleCondition_holds.of_mem_walk h hs

end SyntaxTree
end MutationLint
