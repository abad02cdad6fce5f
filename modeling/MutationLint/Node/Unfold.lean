import MutationLint.Node.Build

/-! Building is recursion over layouts: every subtree a layout asks for is smaller than the tree, so
the bound on the height is never reached. -/

namespace MutationLint

namespace SyntaxTree

def Below (c t : SyntaxTree) : Prop := c.size < t.size

theorem below_of_child {t c : SyntaxTree} (h : c ∈ t.children) : c.Below t := size_lt_of_mem h

theorem below_of_content {t c : SyntaxTree} (h : c ∈ t.content) : c.Below t :=
  below_of_child (mem_of_content h)

theorem below_of_head {t c : SyntaxTree} (h : t.content.head? = some c) : c.Below t :=
  below_of_content (List.mem_of_head? h)

theorem below_of_field {t c : SyntaxTree} {name : String} (h : t.field? name = some c) :
    c.Below t :=
  below_of_child (mem_of_field? h)

theorem Below.trans {a b c : SyntaxTree} (h : a.Below b) (h' : b.Below c) : a.Below c :=
  Nat.lt_trans h h'

theorem below_of_clause {t c : SyntaxTree} {name : String} (h : t.clause? name = some c) :
    c.Below t := by
  obtain ⟨w, hw, hc⟩ := Option.bind_eq_some_iff.mp h
  have hb := below_of_field hw
  split at hc
  · cases hc
  · exact (below_of_head hc).trans hb
  · cases hc
    exact hb

theorem below_of_parameters {t c : SyntaxTree} (h : c ∈ t.parameters) : c.Below t := by
  unfold parameters at h
  cases hp : t.field? "parameters" with
  | none => simp [hp] at h
  | some p => exact (below_of_content (by simpa [hp] using h)).trans (below_of_field hp)

theorem below_of_arrowParameters {t c : SyntaxTree} (h : c ∈ t.arrowParameters) : c.Below t := by
  unfold arrowParameters at h
  cases hp : t.field? "parameter" with
  | none => exact below_of_parameters (by simpa [hp] using h)
  | some p =>
    have hc : c = p := by simpa [hp] using h
    exact hc ▸ below_of_field hp

theorem below_of_superclass {t c : SyntaxTree} (h : t.superclass? = some c) : c.Below t := by
  obtain ⟨w, hw, hc⟩ := Option.bind_eq_some_iff.mp h
  exact (below_of_head hc).trans (below_of_content (List.mem_of_find?_eq_some hw))

theorem below_of_key {t c : SyntaxTree} {name : String} (h : t.key? name = some c) : c.Below t := by
  obtain ⟨k, hk, hc⟩ := Option.bind_eq_some_iff.mp h
  by_cases hk' : k.isComputedKey
  · rw [if_pos hk'] at hc
    exact (below_of_head hc).trans (below_of_field hk)
  · rw [if_neg hk'] at hc
    have he : k = c := by simpa using hc
    exact he ▸ below_of_field hk

theorem below_of_argument {t c : SyntaxTree} (h : c ∈ t.argumentTrees) : c.Below t := by
  unfold argumentTrees at h
  cases ha : t.field? "arguments" with
  | none => simp [ha] at h
  | some a =>
    by_cases hk : a.kind == "arguments"
    · exact (below_of_content (by simpa [ha, hk] using h)).trans (below_of_field ha)
    · have hc : c = a := by simpa [ha, hk] using h
      exact hc ▸ below_of_field ha

theorem below_of_exported {t c : SyntaxTree} (h : t.exported? = some c) : c.Below t := by
  unfold exported? at h
  split at h
  · exact below_of_content (List.mem_of_find?_eq_some h)
  · exact below_of_field h

theorem below_of_substitution {t c : SyntaxTree}
    (h : c ∈ (t.content.filter (·.kind == "template_substitution")).flatMap content) :
    c.Below t := by
  obtain ⟨s, hs, hc⟩ := List.mem_flatMap.mp h
  exact (below_of_content hc).trans (below_of_content (List.mem_filter.mp hs).1)

end SyntaxTree

namespace Layout

theorem subtree?_built (t : SyntaxTree) : (Piece.built t).subtree? = some t := rfl

theorem subtree?_spelled (t : SyntaxTree) : (Piece.spelled t).subtree? = none := rfl

theorem subtrees_built (t : SyntaxTree) : (Part.piece (.built t)).subtrees = [t] := rfl

theorem subtrees_declared (t : SyntaxTree) : (Part.piece (.declared t)).subtrees = [t] := rfl

theorem subtrees_spelled (t : SyntaxTree) : (Part.piece (.spelled t)).subtrees = [] := rfl

theorem subtrees_group (label : Label) (ps : List (Role × Piece)) :
    (Part.group label ps).subtrees = ps.filterMap (·.2.subtree?) := rfl

theorem subtrees_all (role : Role) (ts : List SyntaxTree) :
    (all role ts).flatMap (·.2.subtrees) = ts := by
  induction ts with
  | nil => rfl
  | cons t rest ih =>
    simp only [all, List.map_cons, List.flatMap_cons] at ih ⊢
    rw [ih, subtrees_built]
    rfl

theorem subtrees_one (role : Role) (t? : Option SyntaxTree) :
    (one role t?).flatMap (·.2.subtrees) = t?.toList := subtrees_all role _

theorem filterMap_pieces (role : Role) (ts : List SyntaxTree) :
    (pieces role ts).filterMap (·.2.subtree?) = ts := by
  induction ts with
  | nil => rfl
  | cons t rest ih =>
    simp only [pieces, List.map_cons, List.filterMap_cons] at ih ⊢
    rw [ih]
    rfl

end Layout

namespace SyntaxTree

open Layout

/-- Whatever a layout asks for lies below the tree. -/
theorem below_of_layout {t c : SyntaxTree} (h : c ∈ t.layout.subtrees) : c.Below t := by
  unfold layout at h
  cases hf : t.form <;>
    simp only [hf, functionParts, classParts, exportLayout, methodLayout, updateLayout, pairLayout,
      defaultedLayout] at h
  all_goals
    (try split at h) <;>
    (try split at h) <;>
    simp only [Layout.subtrees, subtrees_all, subtrees_one, subtrees_declared, subtrees_spelled,
      subtrees_group, filterMap_pieces, subtree?_built, subtree?_spelled, List.flatMap_append,
      List.flatMap_cons, List.flatMap_nil, List.filterMap_append, List.filterMap_cons,
      List.mem_append, List.mem_cons, List.not_mem_nil, Option.mem_toList, List.nil_append,
      List.append_nil, List.cons_append, or_false, List.mem_filter, Option.or_eq_some_iff] at h <;>
    grind [→ below_of_field, → below_of_head, → below_of_content, → below_of_clause,
      → below_of_parameters, → below_of_arrowParameters, → below_of_superclass, → below_of_key,
      → below_of_argument, → below_of_exported, → below_of_substitution]

end SyntaxTree

namespace Layout

theorem collect_congr {α β : Type} {f g : α → Except BuildFault (Option β)}
    {as : List (Role × α)} (h : ∀ a ∈ as, f a.2 = g a.2) : collect f as = collect g as := by
  induction as with
  | nil => rfl
  | cons a rest ih =>
    obtain ⟨role, a⟩ := a
    simp only [collect]
    rw [h (role, a) (by simp), ih fun b hb => h b (by simp [hb])]

theorem makePiece_congr {source : Source} {f g : SyntaxTree → Built} {p : Piece}
    (h : ∀ t ∈ p.subtree?, f t = g t) : makePiece source f p = makePiece source g p := by
  cases p with
  | built t => exact h t rfl
  | declared t => simp only [makePiece]; rw [h t rfl]
  | spelled t => rfl

theorem makePart_congr {source : Source} {f g : SyntaxTree → Built} {extent : Extent} {p : Part}
    (h : ∀ t ∈ p.subtrees, f t = g t) :
    makePart source f extent p = makePart source g extent p := by
  cases p with
  | piece q => exact makePiece_congr fun t ht => h t (by simpa [Part.subtrees] using ht)
  | group label ps =>
    simp only [makePart]
    rw [collect_congr fun a ha => makePiece_congr fun t ht =>
      h t (List.mem_filterMap.mpr ⟨a, ha, ht⟩)]

theorem assemble_congr {source : Source} {f g : SyntaxTree → Built} {extent : Extent} {l : Layout}
    (h : ∀ t ∈ l.subtrees, f t = g t) :
    l.assemble source f extent = l.assemble source g extent := by
  cases l with
  | nothing | identifier | literal | kindless => rfl
  | inner t => exact h t (by simp [subtrees])
  | node label parts =>
    simp only [assemble]
    rw [collect_congr fun a ha => makePart_congr fun t ht =>
      h t (List.mem_flatMap.mpr ⟨a, ha, ht⟩)]
  | parameter pattern value =>
    have hp : pattern.map f = pattern.map g := by
      cases pattern with
      | none => rfl
      | some p => simp [h p (by simp [subtrees])]
    have hv : value.map f = value.map g := by
      cases value with
      | none => rfl
      | some v => simp [h v (by simp [subtrees])]
    simp only [assemble, hp, hv]

end Layout

namespace SyntaxTree

/-- The bound does not matter once it reaches the size. -/
theorem buildUpTo_eq (source : Source) :
    ∀ (n : Nat) (t : SyntaxTree), t.size ≤ n → buildUpTo source n t = t.build source := by
  intro n
  induction n using Nat.strongRecOn with
  | _ n ih =>
    intro t ht
    cases n with
    | zero => have := t.size_pos; omega
    | succ n =>
      rw [build, size_eq t, buildUpTo, buildUpTo]
      refine Layout.assemble_congr fun c hc => ?_
      have hlt : c.size < t.size := below_of_layout hc
      rw [size_eq t] at hlt ht
      rw [ih n (by omega) c (by omega), ih _ (by omega) c (by omega)]

/-- A tree is built by carrying out its layout. -/
theorem build_eq (source : Source) (t : SyntaxTree) :
    t.build source = t.layout.assemble source (build source) t.extent := by
  rw [build, size_eq t, buildUpTo]
  refine Layout.assemble_congr fun c hc => ?_
  have hlt : c.size < t.size := below_of_layout hc
  rw [size_eq t] at hlt
  exact buildUpTo_eq source _ c (by omega)

end SyntaxTree
end MutationLint
