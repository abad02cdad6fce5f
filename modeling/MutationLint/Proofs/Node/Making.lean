import MutationLint.Proofs.Node.Subtrees

/-! The ways in which nodes are made. A tree is built to a name, to what one of its subtrees is
built to, or to a node over such parts; what all of these keep holds of everything that is built. -/

namespace MutationLint

inductive Layout.Over : Layout → Label → List Role → Prop
  | node {label : Label} {parts : List (Role × Part)} (children : List (Role × Node)) :
      Over (.node label parts) (label.settle children) (parts.map (·.1))
  | group {whole label : Label} {parts : List (Role × Part)} {role : Role}
      {pieces : List (Role × Piece)} : (role, .group label pieces) ∈ parts →
      Over (.node whole parts) label (pieces.map (·.1))
  | parameter {pattern value : Option SyntaxTree} :
      Over (.parameter pattern value) .assignmentPattern [.left, .right]

/-- A relation between trees and nodes that every way of making a node keeps. -/
structure BuildInvariant (P : SyntaxTree → Node → Prop) : Prop where
  leaf : ∀ t s label, s = t ∨ s ∈ t.layout.spelled → P t (.mk label s.extent [])
  parent : ∀ t label roles children, t.layout.Over label roles →
    (children.map Prod.fst).Sublist roles → (∀ c ∈ children, P t c.2) →
    P t (.mk label t.extent children)
  inner : ∀ t c n, c ∈ t.layout.subtrees → P c n → P t n
  declared : ∀ t n, P t n → P t n.asDeclaration
  moved : ∀ t n, P t n → P t (n.withExtent t.extent)

namespace Layout

theorem of_collect {α : Type} {make : α → Built} {Q : Node → Prop} {as : List (Role × α)}
    {made : List (Role × Node)} (hmake : ∀ a ∈ as, ∀ n, make a.2 = .ok (some n) → Q n)
    (h : collect make as = .ok made) :
    (made.map Prod.fst).Sublist (as.map Prod.fst) ∧ ∀ c ∈ made, Q c.2 := by
  induction as generalizing made with
  | nil =>
    obtain rfl := Except.ok.inj h
    exact ⟨List.Sublist.refl _, List.forall_mem_nil _⟩
  | cons a rest ih =>
    obtain ⟨role, a⟩ := a
    obtain ⟨b, others, hb, hothers, rfl⟩ := of_collect_cons h
    obtain ⟨hroles, hothers⟩ := ih (fun c hc => hmake c (List.mem_cons_of_mem _ hc)) hothers
    cases b with
    | none => exact ⟨hroles.cons role, hothers⟩
    | some n =>
      exact ⟨hroles.cons_cons role,
        List.forall_mem_cons.mpr ⟨hmake (role, a) List.mem_cons_self n hb, hothers⟩⟩

end Layout

namespace BuildInvariant

open Layout

variable {P : SyntaxTree → Node → Prop} {source : Source} {build : SyntaxTree → Built}
  {t : SyntaxTree} {n : Node}

theorem of_makePiece (h : BuildInvariant P) {p : Piece}
    (hbuilt : ∀ c ∈ p.subtree?, c ∈ t.layout.subtrees ∧ ∀ n, build c = .ok (some n) → P c n)
    (hspelled : ∀ c ∈ p.spelled?, c ∈ t.layout.spelled)
    (hn : Layout.makePiece source build p = .ok (some n)) : P t n := by
  cases p with
  | built c =>
    obtain ⟨hc, hbuilt⟩ := hbuilt c rfl
    exact h.inner t c n hc (hbuilt n hn)
  | declared c =>
    obtain ⟨hc, hbuilt⟩ := hbuilt c rfl
    obtain ⟨made, hmade, hn⟩ := of_makePiece_declared hn
    obtain ⟨m, rfl, rfl⟩ := Option.map_eq_some_iff.mp hn.symm
    exact h.declared t m (h.inner t c m hc (hbuilt m hmade))
  | spelled c =>
    obtain ⟨name, hn⟩ := of_makePiece_spelled hn
    obtain rfl := Option.some.inj hn
    exact h.leaf t c _ (Or.inr (hspelled c rfl))

theorem of_makePart (h : BuildInvariant P) {label : Label} {parts : List (Role × Part)}
    {a : Role × Part}
    (hl : t.layout = .node label parts) (ha : a ∈ parts)
    (hbuilt : ∀ c ∈ t.layout.subtrees, ∀ n, build c = .ok (some n) → P c n)
    (hn : Layout.makePart source build t.extent a.2 = .ok (some n)) : P t n := by
  have hsubtrees : ∀ c ∈ a.2.subtrees, c ∈ t.layout.subtrees := fun c hc => by
    rw [hl]
    exact List.mem_flatMap.mpr ⟨a, ha, hc⟩
  have hspelled : ∀ c ∈ a.2.spelled, c ∈ t.layout.spelled := fun c hc => by
    rw [hl]
    exact List.mem_flatMap.mpr ⟨a, ha, hc⟩
  obtain ⟨role, part⟩ := a
  cases part with
  | piece p =>
    refine h.of_makePiece (fun c hc => ?_) (fun c hc => hspelled c (Option.mem_toList.mpr hc)) hn
    have hmem := hsubtrees c (Option.mem_toList.mpr hc)
    exact ⟨hmem, hbuilt c hmem⟩
  | group label pieces =>
    obtain ⟨children, hchildren, hn⟩ := of_makePart_group hn
    obtain rfl := Option.some.inj hn
    obtain ⟨hroles, hkept⟩ := of_collect (Q := P t) (fun b hb m hm => by
      refine h.of_makePiece (fun c hc => ?_)
        (fun c hc => hspelled c (List.mem_filterMap.mpr ⟨b, hb, hc⟩)) hm
      have hmem := hsubtrees c (List.mem_filterMap.mpr ⟨b, hb, hc⟩)
      exact ⟨hmem, hbuilt c hmem⟩) hchildren
    exact h.parent t label _ children (by rw [hl]; exact .group ha) hroles hkept

/-- A layout that is carried out keeps what building its subtrees keeps. -/
theorem of_assemble (h : BuildInvariant P)
    (hbuilt : ∀ c ∈ t.layout.subtrees, ∀ n, build c = .ok (some n) → P c n)
    (hn : t.layout.assemble source build t.extent = .ok (some n)) : P t n := by
  have hinner : ∀ c ∈ t.layout.subtrees, ∀ n, build c = .ok (some n) → P t n :=
    fun c hc n hn => h.inner t c n hc (hbuilt c hc n hn)
  cases hl : t.layout with
  | nothing =>
    rw [hl] at hn
    cases hn
  | inner c =>
    rw [hl] at hn
    exact hinner c (by rw [hl]; exact List.mem_cons_self) n hn
  | identifier =>
    rw [hl] at hn
    obtain ⟨name, hn⟩ := of_assemble_identifier hn
    obtain rfl := Option.some.inj hn
    exact h.leaf t t _ (Or.inl rfl)
  | literal =>
    rw [hl] at hn
    obtain ⟨raw, hn⟩ := of_assemble_literal hn
    obtain rfl := Option.some.inj hn
    exact h.leaf t t _ (Or.inl rfl)
  | node label parts =>
    rw [hl] at hn
    obtain ⟨children, hchildren, hn⟩ := of_assemble_node hn
    obtain rfl := Option.some.inj hn
    obtain ⟨hroles, hkept⟩ :=
      of_collect (Q := P t) (fun a ha m hm => h.of_makePart hl ha hbuilt hm) hchildren
    exact h.parent t _ _ children (by rw [hl]; exact .node children) hroles hkept
  | parameter pattern value =>
    rw [hl] at hn hinner
    obtain ⟨p, v, hp, hv, hn⟩ := of_assemble_parameter hn
    have hpattern : ∀ m, p = some m → P t m := by
      rintro m rfl
      obtain ⟨c, rfl, hc⟩ := of_optional_some hp
      exact hinner c (List.mem_append_left _ List.mem_cons_self) m hc
    cases v with
    | none =>
      obtain ⟨m, rfl, rfl⟩ := Option.map_eq_some_iff.mp hn.symm
      exact h.moved t m (hpattern m rfl)
    | some v =>
      obtain rfl := Option.some.inj hn
      obtain ⟨c, rfl, hc⟩ := of_optional_some hv
      have hvalue := hinner c (List.mem_append_right _ List.mem_cons_self) v hc
      refine h.parent t _ [.left, .right] _ (by rw [hl]; exact .parameter) ?_ fun x hx => ?_
      · cases p with
        | none => exact (List.Sublist.refl _).cons _
        | some m => exact List.Sublist.refl _
      · rcases List.mem_append.mp hx with hx | hx
        · obtain ⟨m, hm, rfl⟩ := List.mem_map.mp hx
          exact hpattern m (Option.mem_toList.mp hm)
        · obtain rfl := List.mem_singleton.mp hx
          exact hvalue
  | kindless =>
    rw [hl] at hn
    cases hn

/-- What every way of making a node keeps holds of what a tree is built to. -/
theorem of_build (h : BuildInvariant P) (t : SyntaxTree) :
    ∀ n, t.build source = .ok (some n) → P t n := by
  induction t using SyntaxTree.layout_induction with
  | step t ih =>
    intro n hn
    rw [SyntaxTree.build_eq] at hn
    exact h.of_assemble ih hn

end BuildInvariant

/-- A program holds nothing, or is what its tree is built to, or holds that alone. -/
theorem SyntaxTree.program_cases {source : Source} {t : SyntaxTree} {program : Node}
    (h : t.program source = .ok program) :
    program = .mk .program .origin [] ∨ ∃ n, t.build source = .ok (some n) ∧
      (n.label = .program ∧ program = n ∨
        n.label ≠ .program ∧ program = .mk .program .origin [(.body, n)]) := by
  obtain ⟨b, hb, hp⟩ := exists_of_bind_eq_ok h
  cases b with
  | none => exact .inl (Except.ok.inj hp).symm
  | some n =>
    have hp := (Except.ok.inj hp).symm
    split_ifs at hp with hl
    · exact .inr ⟨n, hb, .inl ⟨hl, hp⟩⟩
    · exact .inr ⟨n, hb, .inr ⟨hl, hp⟩⟩

end MutationLint
