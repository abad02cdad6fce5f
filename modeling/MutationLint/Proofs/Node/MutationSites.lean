import MutationLint.Proofs.Node.Assembly
import MutationLint.Proofs.SyntaxTree.Reading
import MutationLint.Proofs.Walk

/-! Building loses, doubles and moves no mutation: where a tree can be read in order, the walk of
its program comes past exactly the mutations of the tree, in document order. -/

namespace MutationLint

namespace Label

def mutation? : Label → Option Mutation
  | .assignment _ => some .assignment
  | .update _ _ => some .update
  | .call _ => some .call
  | .construct => some .construct
  | _ => none

theorem mutation?_settle (label : Label) (children : List (Role × Node)) :
    (label.settle children).mutation? = label.mutation? := by
  unfold settle
  split
  · split
    · split <;> rfl
    · rfl
  · rfl

end Label

namespace Node

def site? (n : Node) : Option (Mutation × Extent) := n.label.mutation?.map (·, n.extent)

def sites (n : Node) : List (Mutation × Extent) := n.preorder.filterMap site?

theorem preorderAll_eq (cs : List (Role × Node)) :
    preorderAll cs = cs.flatMap (·.2.preorder) := by
  induction cs with
  | nil => rfl
  | cons c rest ih =>
    obtain ⟨role, n⟩ := c
    rw [preorderAll, ih, List.flatMap_cons]

theorem sites_mk (l : Label) (e : Extent) (cs : List (Role × Node)) :
    (mk l e cs).sites = (l.mutation?.map (·, e)).toList ++ cs.flatMap (·.2.sites) := by
  rw [sites, preorder, preorderAll_eq, List.filterMap_cons, List.filterMap_flatMap]
  change _ = (site? (mk l e cs)).toList ++ _
  cases site? (mk l e cs) <;> rfl

theorem sites_mk_of_none {l l' : Label} (h : l.mutation? = none) (h' : l'.mutation? = none)
    (e e' : Extent) (cs : List (Role × Node)) : (mk l e cs).sites = (mk l' e' cs).sites := by
  rw [sites_mk, sites_mk, h, h']
  rfl

theorem sites_withExtent {n : Node} (h : n.label.mutation? = none) (e : Extent) :
    (n.withExtent e).sites = n.sites := by
  obtain ⟨l, e', cs⟩ := n
  exact sites_mk_of_none h h e e' cs

theorem sites_asDeclaration (n : Node) : n.asDeclaration.sites = n.sites := by
  obtain ⟨l, e, cs⟩ := n
  unfold asDeclaration
  split
  · rename_i hl _
    cases hl
    exact sites_mk_of_none rfl rfl e e cs
  · rename_i hl _
    cases hl
    exact sites_mk_of_none rfl rfl e e cs
  · rfl

end Node

def sitesOf (b : Option Node) : List (Mutation × Extent) := b.toList.flatMap Node.sites

theorem sitesOf_some (n : Node) : sitesOf (some n) = n.sites := List.flatMap_singleton _ _

/-! ### Layouts -/

/-- Apart from the trees built for it, the part brings no mutation in. -/
def Part.Silent : Part → Prop
  | .piece _ => True
  | .group label _ => label.mutation? = none

namespace Layout

def Silent (parts : List (Role × Part)) : Prop := ∀ p ∈ parts, p.2.Silent

/-- The layout makes a node of that mutation, and no other apart from the trees built for it. -/
def Makes (m : Option Mutation) : Layout → Prop
  | .node label parts => label.mutation? = m ∧ Silent parts
  | _ => m = none

theorem makes_node {m : Option Mutation} {label : Label} {parts : List (Role × Part)} :
    (node label parts).Makes m ↔ label.mutation? = m ∧ Silent parts := Iff.rfl

theorem silent_nil : Silent [] := List.forall_mem_nil _

theorem silent_cons {role : Role} {part : Part} {parts : List (Role × Part)} :
    Silent ((role, part) :: parts) ↔ part.Silent ∧ Silent parts := List.forall_mem_cons

theorem silent_append {a b : List (Role × Part)} : Silent (a ++ b) ↔ Silent a ∧ Silent b :=
  List.forall_mem_append

theorem silent_all (role : Role) (ts : List SyntaxTree) : Silent (all role ts) := by
  intro p hp
  obtain ⟨t, -, rfl⟩ := List.mem_map.mp hp
  trivial

theorem silent_one (role : Role) (t? : Option SyntaxTree) : Silent (one role t?) :=
  silent_all role _

end Layout

namespace SyntaxTree

open Layout

theorem makes_exportLayout (t : SyntaxTree) : t.exportLayout.Makes none := by
  unfold exportLayout
  split
  · refine ⟨?_, silent_one _ _⟩
    split <;> rfl
  · exact ⟨rfl, silent_cons.mpr ⟨trivial, silent_nil⟩⟩
  · exact ⟨rfl, silent_nil⟩

theorem makes_defaultedLayout (t : SyntaxTree) : t.defaultedLayout.Makes none := by
  refine ⟨rfl, ?_⟩
  split
  · split
    · exact silent_cons.mpr ⟨trivial, silent_cons.mpr ⟨rfl, silent_nil⟩⟩
    · exact silent_cons.mpr ⟨rfl, silent_nil⟩
  · exact silent_cons.mpr ⟨rfl, silent_nil⟩

theorem makes_layout (t : SyntaxTree) : t.layout.Makes t.mutation? := by
  rw [mutation?_eq, layout]
  cases hf : t.form
  case trivia | identifier | literal | parameter => rfl
  case parenthesized => cases t.content.head? <;> rfl
  case declaration =>
    cases t.declarationKind? with
    | some k => exact ⟨rfl, silent_all _ _⟩
    | none => rfl
  case exportStatement => exact t.makes_exportLayout
  case defaultedProperty => exact t.makes_defaultedLayout
  all_goals
    simp only [functionParts, classParts, methodLayout, updateLayout, pairLayout, makes_node,
      Mutation.ofForm?, Label.mutation?, silent_nil, silent_cons, silent_append, silent_all,
      silent_one, Part.Silent, and_true]

end SyntaxTree

/-! ### Building -/

section
variable {source : Source} {build : SyntaxTree → Built}

def Kept (build : SyntaxTree → Built) (t : SyntaxTree) : Prop :=
  ∀ b, build t = .ok b → sitesOf b = t.sites

namespace Layout

theorem sites_collect {α : Type} {make : α → Built} (trees : α → List SyntaxTree)
    {as : List (Role × α)} {made : List (Role × Node)}
    (hmake : ∀ a ∈ as, ∀ b, make a.2 = .ok b → sitesOf b = (trees a.2).flatMap SyntaxTree.sites)
    (h : collect make as = .ok made) :
    made.flatMap (·.2.sites) = (as.flatMap fun a => trees a.2).flatMap SyntaxTree.sites := by
  induction as generalizing made with
  | nil =>
    obtain rfl := Except.ok.inj h
    rfl
  | cons a rest ih =>
    obtain ⟨role, a⟩ := a
    obtain ⟨b, others, hb, hothers, rfl⟩ := of_collect_cons h
    have hhead := hmake (role, a) List.mem_cons_self b hb
    have htail := ih (fun c hc => hmake c (List.mem_cons_of_mem _ hc)) hothers
    rw [List.flatMap_append, List.flatMap_map, htail, List.flatMap_cons, List.flatMap_append,
      ← hhead]
    rfl

theorem sites_makePiece {p : Piece} {b : Option Node} (hkept : ∀ t ∈ p.subtree?, Kept build t)
    (h : makePiece source build p = .ok b) :
    sitesOf b = p.subtree?.toList.flatMap SyntaxTree.sites := by
  cases p with
  | built t => exact (hkept t rfl b h).trans (List.flatMap_singleton _ _).symm
  | declared t =>
    obtain ⟨made, hmade, rfl⟩ := of_makePiece_declared h
    have hsites : sitesOf (made.map Node.asDeclaration) = sitesOf made := by
      cases made with
      | none => rfl
      | some n => simp only [Option.map_some, sitesOf_some, Node.sites_asDeclaration]
    exact (hsites.trans (hkept t rfl made hmade)).trans (List.flatMap_singleton _ _).symm
  | spelled t =>
    obtain ⟨name, rfl⟩ := of_makePiece_spelled h
    rfl

theorem sites_makePart {extent : Extent} {p : Part} {b : Option Node} (hp : p.Silent)
    (hkept : ∀ t ∈ p.subtrees, Kept build t) (h : makePart source build extent p = .ok b) :
    sitesOf b = p.subtrees.flatMap SyntaxTree.sites := by
  cases p with
  | piece q => exact sites_makePiece (fun t ht => hkept t (by simpa [Part.subtrees] using ht)) h
  | group label pieces =>
    obtain ⟨children, hchildren, rfl⟩ := of_makePart_group h
    have hmade := sites_collect (fun q => q.subtree?.toList) (fun a ha b hb =>
      sites_makePiece (fun t ht => hkept t (List.mem_filterMap.mpr ⟨a, ha, ht⟩)) hb) hchildren
    rw [sitesOf_some, Node.sites_mk, hmade, Part.subtrees, List.filterMap_eq_flatMap_toList,
      show label.mutation? = none from hp]
    rfl

theorem sites_optional {t? : Option SyntaxTree} {b : Option Node} (hkept : ∀ t ∈ t?, Kept build t)
    (h : (t?.map build).getD (.ok none) = .ok b) :
    sitesOf b = t?.toList.flatMap SyntaxTree.sites := by
  cases t? with
  | none =>
    obtain rfl := Except.ok.inj h
    rfl
  | some t => exact (hkept t rfl b h).trans (List.flatMap_singleton _ _).symm

theorem sitesOf_withExtent {b : Option Node} (h : ∀ n ∈ b, n.label.mutation? = none)
    (extent : Extent) : sitesOf (b.map (·.withExtent extent)) = sitesOf b := by
  cases b with
  | none => rfl
  | some n => rw [Option.map_some, sitesOf_some, sitesOf_some, Node.sites_withExtent (h n rfl)]

/-- A layout that is carried out brings in the mutation it makes, then those of its trees. The
pattern of a parameter is moved, so it must not be one itself. -/
theorem sites_assemble {extent : Extent} {l : Layout} {m : Option Mutation} {b : Option Node}
    (hl : l.Makes m) (hkept : ∀ t ∈ l.subtrees, Kept build t)
    (hpattern : ∀ p v n, l = .parameter (some p) v → build p = .ok (some n) →
      n.label.mutation? = none)
    (h : l.assemble source build extent = .ok b) :
    sitesOf b = (m.map (·, extent)).toList ++ l.subtrees.flatMap SyntaxTree.sites := by
  cases l with
  | nothing =>
    obtain rfl := Except.ok.inj h
    rw [show m = none from hl]
    rfl
  | inner t =>
    rw [hkept t List.mem_cons_self b h, show m = none from hl]
    exact (List.flatMap_singleton _ _).symm
  | identifier =>
    obtain ⟨name, rfl⟩ := of_assemble_identifier h
    rw [show m = none from hl]
    rfl
  | literal =>
    obtain ⟨raw, rfl⟩ := of_assemble_literal h
    rw [show m = none from hl]
    rfl
  | node label parts =>
    obtain ⟨hlabel, hsilent⟩ := hl
    obtain ⟨children, hchildren, rfl⟩ := of_assemble_node h
    have hmade := sites_collect Part.subtrees (fun a ha b hb => sites_makePart (hsilent a ha)
      (fun t ht => hkept t (List.mem_flatMap.mpr ⟨a, ha, ht⟩)) hb) hchildren
    rw [sitesOf_some, Node.sites_mk, Label.mutation?_settle, hlabel, hmade]
    rfl
  | parameter pattern value =>
    obtain ⟨p, v, hp, hv, rfl⟩ := of_assemble_parameter h
    have hps := sites_optional
      (fun t ht => hkept t (List.mem_append_left _ (Option.mem_toList.mpr ht))) hp
    have hvs := sites_optional
      (fun t ht => hkept t (List.mem_append_right _ (Option.mem_toList.mpr ht))) hv
    rw [show m = none from hl, subtrees, List.flatMap_append, ← hps, ← hvs]
    cases v with
    | none =>
      -- the pattern takes the extent of the whole, which shows in a mutation only
      have hnone : ∀ n ∈ p, n.label.mutation? = none := by
        rintro n rfl
        obtain ⟨q, rfl, hq⟩ := of_optional_some hp
        exact hpattern q value n rfl hq
      rw [sitesOf_withExtent hnone]
      exact (List.append_nil _).symm
    | some v =>
      rw [sitesOf_some, Node.sites_mk, List.flatMap_append, List.flatMap_map, sitesOf_some]
      simp [Label.mutation?, sitesOf]
  | kindless => cases h

/-- What a layout is carried out to is the mutation it makes, unless it is what a tree inside is. -/
theorem mutation_assemble {extent : Extent} {l : Layout} {m : Option Mutation} {b : Option Node}
    (hl : l.Makes m) (hinner : ∀ t, l ≠ .inner t)
    (hpattern : ∀ p v n, l = .parameter (some p) v → build p = .ok (some n) →
      n.label.mutation? = none)
    (h : l.assemble source build extent = .ok b) : b.bind (·.label.mutation?) = m := by
  cases l with
  | nothing =>
    obtain rfl := Except.ok.inj h
    exact Eq.symm hl
  | inner t => exact absurd rfl (hinner t)
  | identifier =>
    obtain ⟨name, rfl⟩ := of_assemble_identifier h
    exact Eq.symm hl
  | literal =>
    obtain ⟨raw, rfl⟩ := of_assemble_literal h
    exact Eq.symm hl
  | node label parts =>
    obtain ⟨children, -, rfl⟩ := of_assemble_node h
    exact (Label.mutation?_settle label children).trans hl.1
  | parameter pattern value =>
    obtain ⟨p, v, hp, -, rfl⟩ := of_assemble_parameter h
    rw [show m = none from hl]
    cases v with
    | some v => rfl
    | none =>
      cases p with
      | none => rfl
      | some n =>
        obtain ⟨q, rfl, hq⟩ := of_optional_some hp
        exact hpattern q value n rfl hq
  | kindless => cases h

end Layout
end

namespace SyntaxTree

variable {source : Source}

theorem form_of_layout_inner {t c : SyntaxTree} (h : t.layout = .inner c) :
    t.form = .parenthesized := by
  cases hf : t.form <;>
    simp only [layout, hf, exportLayout, methodLayout, updateLayout, pairLayout, defaultedLayout,
      reduceCtorEq] at h
  · rfl
  · split at h <;> cases h
  · split at h <;> cases h

theorem of_layout_parameter {t : SyntaxTree} {pattern value : Option SyntaxTree}
    (h : t.layout = .parameter pattern value) :
    t.form = .parameter ∧ pattern = t.field? "pattern" := by
  cases hf : t.form <;>
    simp only [layout, hf, exportLayout, methodLayout, updateLayout, pairLayout, defaultedLayout,
      reduceCtorEq] at h
  · split at h <;> cases h
  · split at h <;> cases h
  · split at h <;> cases h
  · cases h
    exact ⟨rfl, rfl⟩

theorem Orderly.pattern_built {t p : SyntaxTree} {v : Option SyntaxTree} {n : Node}
    (h : t.Orderly) (hl : t.layout = .parameter (some p) v)
    (hn : n.label.mutation? = p.unwrap?.bind mutation?) : n.label.mutation? = none := by
  obtain ⟨hform, hfield⟩ := of_layout_parameter hl
  have hnone := h.pattern hform
  rwa [← hfield, Option.bind_some, ← hn] at hnone

/-- What a tree is built to is a mutation exactly when the tree is one, out of its parentheses. -/
theorem Readable.mutation_build {t : SyntaxTree} (h : t.Readable) :
    ∀ b, t.build source = .ok b → b.bind (·.label.mutation?) = t.unwrap?.bind mutation? := by
  induction h with
  | @mk t orderly _ ih =>
    intro b hb
    rw [build_eq] at hb
    rw [unwrap?_eq]
    by_cases hpar : t.form = .parenthesized
    · -- parentheses are built to what they hold, and the induction goes on inside
      rw [if_pos hpar]
      rw [layout, hpar] at hb ih
      cases hc : t.content.head? with
      | none =>
        rw [hc] at hb
        obtain rfl := Except.ok.inj hb
        rfl
      | some c =>
        rw [hc] at hb ih
        exact ih c List.mem_cons_self b hb
    · rw [if_neg hpar, Option.bind_some]
      refine Layout.mutation_assemble t.makes_layout (fun c hc => hpar (form_of_layout_inner hc))
        (fun p v n hl hn => orderly.pattern_built hl ?_) hb
      exact ih p (by rw [hl]; exact List.mem_cons_self) _ hn

/-- A readable tree, when it is built, brings exactly its mutations in. -/
theorem Readable.kept {t : SyntaxTree} (h : t.Readable) : Kept (build source) t := by
  induction h with
  | @mk t orderly readable ih =>
    intro b hb
    rw [build_eq] at hb
    rw [orderly.sites_eq, site?]
    refine Layout.sites_assemble t.makes_layout ih
      (fun p v n hl hn => orderly.pattern_built hl ?_) hb
    exact (readable p (by rw [hl]; exact List.mem_cons_self)).mutation_build _ hn

theorem sites_program {t : SyntaxTree} {program : Node} (h : t.Readable)
    (hb : t.program source = .ok program) : program.sites = t.sites := by
  obtain ⟨b, hb, hp⟩ := exists_of_bind_eq_ok hb
  rw [← h.kept b hb]
  cases b with
  | none =>
    obtain rfl := Except.ok.inj hp
    rfl
  | some n =>
    obtain rfl := Except.ok.inj hp
    rw [sitesOf_some]
    split
    · rfl
    · rw [Node.sites_mk, List.flatMap_singleton]
      rfl

/-- The walk of the program comes past the mutations of the tree: each once, in document order, and
at the place where the tree has it. -/
theorem walk_program_mutations {t : SyntaxTree} {program : Node} (h : t.Readable)
    (hb : t.program source = .ok program) :
    (Site.walk program).filterMap (fun s => s.label.mutation?.map (·, s.node.extent)) =
      t.preorder.filterMap (fun s => s.mutation?.map (·, s.extent)) := by
  have hsites := sites_program h hb
  rw [Node.sites, ← Site.map_node_walk, List.filterMap_map] at hsites
  exact hsites

/-- The tree of `for (i = 0; f(i); (i++)) a.b = new C()`. -/
def busyLoop : SyntaxTree :=
  .mk "program" true none ⟨0, 38, 0, 0⟩
    [.mk "for_statement" true none ⟨0, 38, 0, 0⟩
      [.mk "for" false none ⟨0, 3, 0, 0⟩ [],
        .mk "(" false none ⟨4, 5, 0, 4⟩ [],
        .mk "expression_statement" true (some "initializer") ⟨5, 11, 0, 5⟩
          [.mk "assignment_expression" true none ⟨5, 10, 0, 5⟩
            [.mk "identifier" true (some "left") ⟨5, 6, 0, 5⟩ [],
              .mk "=" false none ⟨7, 8, 0, 7⟩ [],
              .mk "number" true (some "right") ⟨9, 10, 0, 9⟩ []]],
        .mk "expression_statement" true (some "condition") ⟨12, 17, 0, 12⟩
          [.mk "call_expression" true none ⟨12, 16, 0, 12⟩
            [.mk "identifier" true (some "function") ⟨12, 13, 0, 12⟩ [],
              .mk "arguments" true (some "arguments") ⟨13, 16, 0, 13⟩
                [.mk "identifier" true none ⟨14, 15, 0, 14⟩ []]]],
        .mk "parenthesized_expression" true (some "increment") ⟨18, 23, 0, 18⟩
          [.mk "update_expression" true none ⟨19, 22, 0, 19⟩
            [.mk "identifier" true (some "argument") ⟨19, 20, 0, 19⟩ [],
              .mk "++" false (some "operator") ⟨20, 22, 0, 20⟩ []]],
        .mk "expression_statement" true (some "body") ⟨25, 38, 0, 25⟩
          [.mk "assignment_expression" true none ⟨25, 38, 0, 25⟩
            [.mk "member_expression" true (some "left") ⟨25, 28, 0, 25⟩
              [.mk "identifier" true (some "object") ⟨25, 26, 0, 25⟩ [],
                .mk "property_identifier" true (some "property") ⟨27, 28, 0, 27⟩ []],
              .mk "=" false none ⟨29, 30, 0, 29⟩ [],
              .mk "new_expression" true (some "right") ⟨31, 38, 0, 31⟩
                [.mk "identifier" true (some "constructor") ⟨35, 36, 0, 35⟩ [],
                  .mk "arguments" true (some "arguments") ⟨36, 38, 0, 36⟩ []]]]]]

theorem busyLoop_mutations : busyLoop.Readable ∧ ∃ program,
    busyLoop.program (.ofText "for (i = 0; f(i); (i++)) a.b = new C()") = .ok program ∧
      (Site.walk program).filterMap (fun s => s.label.mutation?.map (·, s.node.extent)) =
        [(.assignment, ⟨5, 10, 0, 5⟩), (.call, ⟨12, 16, 0, 12⟩), (.update, ⟨19, 22, 0, 19⟩),
          (.assignment, ⟨25, 38, 0, 25⟩), (.construct, ⟨31, 38, 0, 31⟩)] := by
  have hr : busyLoop.Readable :=
    readable_of_upTo (show readableUpTo 9 busyLoop = true by decide +kernel)
  have hb : (busyLoop.program
      (.ofText "for (i = 0; f(i); (i++)) a.b = new C()")).toOption.isSome = true := by
    decide +kernel
  obtain ⟨program, hp⟩ := Option.isSome_iff_exists.mp hb
  have hp := eq_ok_of_toOption hp
  exact ⟨hr, program, hp, (walk_program_mutations hr hp).trans (by decide +kernel)⟩

end SyntaxTree

end MutationLint
