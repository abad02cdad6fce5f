import MutationLint.Proofs.Node.MutationSites

/-! The trees that a layout asks for. All of them lie inside the tree it is the layout of, also
those of which only the name is taken. -/

namespace MutationLint

namespace SyntaxTree

theorem self_mem_preorder (t : SyntaxTree) : t ∈ t.preorder := by
  rw [preorder_eq]
  exact List.mem_cons_self

theorem mem_preorder_of_child {t c a : SyntaxTree} (hc : c ∈ t.children) (ha : a ∈ c.preorder) :
    a ∈ t.preorder := by
  rw [preorder_eq]
  exact List.mem_cons_of_mem _ (List.mem_flatMap.mpr ⟨c, hc, ha⟩)

theorem mem_preorder_trans {a b t : SyntaxTree} (hab : a ∈ b.preorder) (hbt : b ∈ t.preorder) :
    a ∈ t.preorder := by
  induction hn : t.size using Nat.strongRecOn generalizing t with
  | _ k ih =>
    rw [preorder_eq] at hbt
    rcases List.mem_cons.mp hbt with rfl | hbt
    · exact hab
    · obtain ⟨c, hc, hbc⟩ := List.mem_flatMap.mp hbt
      exact mem_preorder_of_child hc (ih c.size (hn ▸ size_lt_of_mem hc) hbc rfl)

/-- To prove something of all trees, it may be assumed of those a tree's layout asks for. -/
theorem layout_induction {P : SyntaxTree → Prop}
    (step : ∀ t, (∀ c ∈ t.layout.subtrees, P c) → P t) (t : SyntaxTree) : P t := by
  induction hn : t.size using Nat.strongRecOn generalizing t with
  | _ k ih => exact step t fun c hc => ih c.size (hn ▸ below_of_layout hc) c rfl

theorem mem_children_of_inside {m : Manner} {t c : SyntaxTree}
    (h : c ∈ (m.inside t).map (·.1)) : c ∈ t.children := by
  obtain ⟨p, hp, rfl⟩ := List.mem_map.mp h
  have hplace := (m.inside_sublist t).subset hp
  rw [places, List.mem_zipIdx_iff_getElem?] at hplace
  exact List.mem_of_getElem? hplace

theorem mem_preorder_of_read {r : Read} {c : SyntaxTree} (h : c ∈ r.trees) :
    c ∈ r.child.preorder := by
  rw [Read.trees, Manner.trees.eq_def] at h
  split at h
  · obtain rfl := List.mem_singleton.mp h
    exact self_mem_preorder _
  · exact mem_preorder_of_child (mem_children_of_inside h) (self_mem_preorder _)

theorem mem_preorder_of_layout {t c : SyntaxTree} (h : c ∈ t.layout.subtrees) :
    c ∈ t.preorder := by
  rw [← trees_reads] at h
  obtain ⟨r, hr, hc⟩ := List.mem_flatMap.mp h
  have hplace := mem_places_of_reads hr
  rw [places, List.mem_zipIdx_iff_getElem?] at hplace
  exact mem_preorder_of_child (List.mem_of_getElem? hplace) (mem_preorder_of_read hc)

end SyntaxTree

/-! ### Names that are only spelled -/

def Piece.spelled? : Piece → Option SyntaxTree
  | .spelled t => some t
  | .built _ | .declared _ => none

def Part.spelled : Part → List SyntaxTree
  | .piece p => p.spelled?.toList
  | .group _ ps => ps.filterMap (·.2.spelled?)

namespace Layout

/-- The trees a layout takes the name of, and nothing else. -/
def spelled : Layout → List SyntaxTree
  | .node _ parts => parts.flatMap (·.2.spelled)
  | _ => []

theorem spelled_spelled (t : SyntaxTree) : (Part.piece (.spelled t)).spelled = [t] := rfl

theorem spelled_declared (t : SyntaxTree) : (Part.piece (.declared t)).spelled = [] := rfl

theorem spelled_group (label : Label) (ps : List (Role × Piece)) :
    (Part.group label ps).spelled = ps.filterMap (·.2.spelled?) := rfl

theorem spelled?_built (t : SyntaxTree) : (Piece.built t).spelled? = none := rfl

theorem spelled?_spelled (t : SyntaxTree) : (Piece.spelled t).spelled? = some t := rfl

theorem spelled_all (role : Role) (ts : List SyntaxTree) :
    (all role ts).flatMap (·.2.spelled) = [] := by
  refine List.flatMap_eq_nil_iff.mpr fun p hp => ?_
  obtain ⟨t, -, rfl⟩ := List.mem_map.mp hp
  rfl

theorem spelled_one (role : Role) (t? : Option SyntaxTree) :
    (one role t?).flatMap (·.2.spelled) = [] := spelled_all role _

theorem filterMap_spelled?_pieces (role : Role) (ts : List SyntaxTree) :
    (pieces role ts).filterMap (·.2.spelled?) = [] := by
  refine List.filterMap_eq_nil_iff.mpr fun p hp => ?_
  obtain ⟨t, -, rfl⟩ := List.mem_map.mp hp
  rfl

end Layout

namespace SyntaxTree

open Layout

theorem of_mem_spelled {t c : SyntaxTree} (h : c ∈ t.layout.spelled) :
    c = t ∨ t.field? "left" = some c := by
  unfold layout at h
  cases hf : t.form <;>
    simp only [hf, functionParts, classParts, exportLayout, methodLayout, updateLayout, pairLayout,
      defaultedLayout] at h
  all_goals
    (try split at h) <;>
    (try split at h) <;>
    simp only [spelled, spelled_all, spelled_one, spelled_spelled, spelled_declared,
      spelled_group, filterMap_spelled?_pieces, spelled?_built, spelled?_spelled,
      List.flatMap_append, List.flatMap_cons, List.flatMap_nil, List.filterMap_append,
      List.filterMap_cons, List.append_nil, List.cons_append, List.nil_append, List.mem_cons,
      List.not_mem_nil, or_false, or_self] at h
  · exact Or.inl h
  · subst h
    exact Or.inr ‹_›

theorem mem_preorder_of_spelled {t c : SyntaxTree} (h : c ∈ t.layout.spelled) :
    c ∈ t.preorder := by
  rcases of_mem_spelled h with rfl | hl
  · exact self_mem_preorder _
  · exact mem_preorder_of_child (mem_of_field? hl) (self_mem_preorder _)

end SyntaxTree

end MutationLint
