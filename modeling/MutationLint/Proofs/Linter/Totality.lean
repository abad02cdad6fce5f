import MutationLint.Proofs.Linter.Outcome
import MutationLint.Proofs.Node.Extents

/-! Linting never fails on a tree, however damaged, whose extents are text and whose declarations
are not empty: building finds every text and kind it asks for, and a check asks only for the text of
a node that was built. -/

namespace MutationLint

/-! ### Text -/

namespace Source

def IsText (s : Source) (e : Extent) : Prop :=
  (s.bytes.extract (s.position e.start) (s.position e.stop)).IsValidUTF8

theorem IsText.exists_text {s : Source} {e : Extent} (h : s.IsText e) :
    ∃ text, s.text e = .ok text := by
  have hread : String.fromUTF8? (s.bytes.extract (s.position e.start) (s.position e.stop)) =
      some (String.fromUTF8 _ h) := dif_pos h
  exact ⟨_, by rw [text, slice, Text.Utf8.decode, hread]⟩

theorem isText_origin (s : Source) : s.IsText .origin := by
  have hpos : s.position 0 = 0 := by simp [position]
  simp [IsText, Extent.origin, hpos]

end Source

/-! ### Building -/

namespace Form

theorem of_ofKind_declaration {kind : String} (h : ofKind kind = .declaration) :
    kind = "lexical_declaration" ∨ kind = "variable_declaration" := by
  have hnames : ∀ p ∈ names, p.2 = .declaration →
      p.1 = "lexical_declaration" ∨ p.1 = "variable_declaration" := by decide
  cases hl : names.lookup kind with
  | none => simp [ofKind, hl] at h
  | some f =>
    obtain ⟨before, after, hsplit, -⟩ := List.lookup_eq_some_iff.mp hl
    refine hnames (kind, f) (by rw [hsplit]; simp) ?_
    simpa [ofKind, hl] using h

end Form

/-- Every stretch that the tree marks is text, and every declaration has a child. -/
structure SyntaxTree.Legible (source : Source) (t : SyntaxTree) : Prop where
  text : ∀ s ∈ t.preorder, source.IsText s.extent
  declaration : ∀ s ∈ t.preorder,
    s.kind = "lexical_declaration" ∨ s.kind = "variable_declaration" → s.children ≠ []

namespace Layout

variable {source : Source} {build : SyntaxTree → Built}

theorem exists_spell {extent : Extent} (h : source.IsText extent) :
    ∃ name, spell source extent = .ok name := by
  obtain ⟨text, ht⟩ := h.exists_text
  exact ⟨text, by rw [spell, ht]; rfl⟩

theorem exists_collect {α β : Type} {make : α → Except BuildFault (Option β)}
    {as : List (Role × α)} (h : ∀ a ∈ as, ∃ b, make a.2 = .ok b) :
    ∃ made, collect make as = .ok made := by
  induction as with
  | nil => exact ⟨[], rfl⟩
  | cons a rest ih =>
    obtain ⟨role, a⟩ := a
    obtain ⟨b, hb⟩ := h (role, a) List.mem_cons_self
    obtain ⟨others, hothers⟩ := ih fun c hc => h c (List.mem_cons_of_mem _ hc)
    rw [collect, show make a = .ok b from hb, hothers]
    exact ⟨_, rfl⟩

theorem exists_makePiece {p : Piece} (hbuilt : ∀ t ∈ p.subtree?, ∃ b, build t = .ok b)
    (hspelled : ∀ t ∈ p.spelled?, source.IsText t.extent) :
    ∃ b, makePiece source build p = .ok b := by
  cases p with
  | built t => exact hbuilt t rfl
  | declared t =>
    obtain ⟨b, hb⟩ := hbuilt t rfl
    rw [makePiece, hb]
    exact ⟨_, rfl⟩
  | spelled t =>
    obtain ⟨name, hname⟩ := exists_spell (hspelled t rfl)
    rw [makePiece, hname]
    exact ⟨_, rfl⟩

theorem exists_makePart {extent : Extent} {p : Part}
    (hbuilt : ∀ t ∈ p.subtrees, ∃ b, build t = .ok b)
    (hspelled : ∀ t ∈ p.spelled, source.IsText t.extent) :
    ∃ b, makePart source build extent p = .ok b := by
  cases p with
  | piece q =>
    exact exists_makePiece (fun t ht => hbuilt t (Option.mem_toList.mpr ht))
      (fun t ht => hspelled t (Option.mem_toList.mpr ht))
  | group label pieces =>
    have hpieces : ∀ a ∈ pieces, ∃ b, makePiece source build a.2 = .ok b := fun a ha =>
      exists_makePiece (fun t ht => hbuilt t (List.mem_filterMap.mpr ⟨a, ha, ht⟩))
        (fun t ht => hspelled t (List.mem_filterMap.mpr ⟨a, ha, ht⟩))
    obtain ⟨children, hchildren⟩ := exists_collect hpieces
    rw [makePart, hchildren]
    exact ⟨_, rfl⟩

theorem exists_optional {t? : Option SyntaxTree} (h : ∀ t ∈ t?, ∃ b, build t = .ok b) :
    ∃ b, (t?.map build).getD (.ok none) = .ok b := by
  cases t? with
  | none => exact ⟨none, rfl⟩
  | some t => exact h t rfl

/-- A layout is carried out when its trees are built, its texts are text and it has a kind. -/
theorem exists_assemble {extent : Extent} {l : Layout} (hextent : source.IsText extent)
    (hbuilt : ∀ t ∈ l.subtrees, ∃ b, build t = .ok b)
    (hspelled : ∀ t ∈ l.spelled, source.IsText t.extent) (hkind : l ≠ .kindless) :
    ∃ b, l.assemble source build extent = .ok b := by
  cases l with
  | nothing => exact ⟨none, rfl⟩
  | inner t => exact hbuilt t List.mem_cons_self
  | identifier =>
    obtain ⟨name, hname⟩ := exists_spell hextent
    rw [assemble, hname]
    exact ⟨_, rfl⟩
  | literal =>
    obtain ⟨raw, hraw⟩ := exists_spell hextent
    rw [assemble, hraw]
    exact ⟨_, rfl⟩
  | node label parts =>
    have hparts : ∀ a ∈ parts, ∃ b, makePart source build extent a.2 = .ok b := fun a ha =>
      exists_makePart (fun t ht => hbuilt t (List.mem_flatMap.mpr ⟨a, ha, ht⟩))
        (fun t ht => hspelled t (List.mem_flatMap.mpr ⟨a, ha, ht⟩))
    obtain ⟨children, hchildren⟩ := exists_collect hparts
    rw [assemble, hchildren]
    exact ⟨_, rfl⟩
  | parameter pattern value =>
    obtain ⟨p, hp⟩ := exists_optional fun t ht =>
      hbuilt t (List.mem_append_left _ (Option.mem_toList.mpr ht))
    obtain ⟨v, hv⟩ := exists_optional fun t ht =>
      hbuilt t (List.mem_append_right _ (Option.mem_toList.mpr ht))
    rw [assemble, hp, hv]
    exact ⟨_, rfl⟩
  | kindless => exact absurd rfl hkind

end Layout

namespace SyntaxTree

variable {source : Source} {t : SyntaxTree}

/-- Only a declaration without children has no kind. -/
theorem of_layout_kindless (h : t.layout = .kindless) :
    t.form = .declaration ∧ t.children = [] := by
  cases hf : t.form <;>
    simp only [layout, hf, exportLayout, methodLayout, updateLayout, pairLayout, defaultedLayout,
      reduceCtorEq] at h
  · split at h <;> cases h
  · refine ⟨rfl, ?_⟩
    split at h
    · cases h
    · rename_i hk
      rw [declarationKind?, Option.map_eq_none_iff, Option.or_eq_none_iff] at hk
      exact List.head?_eq_none_iff.mp hk.2
  · split at h <;> cases h

theorem Legible.mono {c : SyntaxTree} (h : t.Legible source) (hc : c ∈ t.preorder) :
    c.Legible source :=
  ⟨fun s hs => h.text s (mem_preorder_trans hs hc),
    fun s hs => h.declaration s (mem_preorder_trans hs hc)⟩

theorem Legible.exists_build (h : t.Legible source) : ∃ b, t.build source = .ok b := by
  induction t using layout_induction with
  | step t ih =>
    rw [build_eq]
    refine Layout.exists_assemble (h.text t t.self_mem_preorder)
      (fun c hc => ih c hc (h.mono (mem_preorder_of_layout hc)))
      (fun c hc => h.text c (mem_preorder_of_spelled hc)) fun hkind => ?_
    obtain ⟨hform, hnil⟩ := of_layout_kindless hkind
    exact h.declaration t t.self_mem_preorder (Form.of_ofKind_declaration hform) hnil

theorem Legible.exists_program (h : t.Legible source) :
    ∃ program, t.program source = .ok program := by
  obtain ⟨b, hb⟩ := h.exists_build
  rw [program, hb]
  cases b with
  | none => exact ⟨_, rfl⟩
  | some n => exact ⟨_, rfl⟩

theorem Legible.placed (h : t.Legible source) {program : Node}
    (hp : t.program source = .ok program) : program.Placed source.IsText := by
  intro m hm
  rcases placed_program hp m hm with he | ⟨s, hs, he⟩
  · rw [he]
    exact source.isText_origin
  · rw [← he]
    exact h.text s hs

end SyntaxTree

/-! ### Checking -/

namespace Rule

theorem ofName?_name (r : Rule) : ofName? r.name = some r := by
  cases r <;> decide

theorem exists_checkAssignment {o : Options} {c : FileContext} {s : Site}
    (h : ∃ text, c.text s.left? = .ok text) : ∃ v, checkAssignment o c s = .ok v := by
  obtain ⟨text, ht⟩ := h
  rw [checkAssignment, ht]
  split
  · exact ⟨_, rfl⟩
  · split
    · exact ⟨_, rfl⟩
    · exact ⟨_, rfl⟩

/-- A check returns at a node that stands on text together with all it holds. -/
theorem exists_check {r : Rule} {o : Options} {c : FileContext} {s : Site}
    (h : s.node.Placed c.source.IsText) : ∃ v, r.check o c s = .ok v := by
  unfold check
  split
  · refine exists_checkAssignment ?_
    rw [FileContext.text.eq_def]
    cases hl : s.left? with
    | none => exact ⟨"", rfl⟩
    | some left => exact (h.child hl).self.exists_text
  · exact ⟨_, rfl⟩
  · exact ⟨_, rfl⟩
  · exact ⟨_, rfl⟩

end Rule

/-- Linting a legible tree in a language and under rules that are known returns findings, whatever
the options: the program is built, and every check of every rule returns at every site of it. -/
theorem lintSource_returns_findings {source : Source} {tree : SyntaxTree}
    (legible : tree.Legible source) {language : Text} {known : Language}
    (supported : Language.ofName? language = some known) (options : OptionSource)
    {names : Option (List Text)}
    (rules : ∀ ns ∈ names, ∀ n ∈ ns, ∃ r, Rule.ofName? n = some r) (filePath : Option Text) :
    ∃ l program findings, Linter.create options names = .ok l ∧
      tree.program source = .ok program ∧
      (∀ s ∈ Site.walk program, ∀ (r : Rule) (o : Options), ∃ v,
        r.check o ⟨source, filePath⟩ s = .ok v) ∧
      (l.lintSource source language tree filePath).result = .ok findings := by
  have hnames : ∀ n ∈ names.getD (Rule.all.map fun r => r.name), ∃ r, Rule.ofName? n = some r := by
    cases names with
    | none =>
      intro n hn
      obtain ⟨r, -, rfl⟩ := List.mem_map.mp hn
      exact ⟨r, r.ofName?_name⟩
    | some ns => exact rules ns rfl
  obtain ⟨program, hp⟩ := legible.exists_program
  have hcheck : ∀ s ∈ Site.walk program, ∀ (r : Rule) (o : Options), ∃ v,
      r.check o ⟨source, filePath⟩ s = .ok v :=
    fun s hs r o => Rule.exists_check ((legible.placed hp).site hs)
  obtain ⟨l, hl⟩ : ∃ l, Linter.create options names = .ok l :=
    ⟨_, Linter.create_eq_ok_iff.mpr ⟨hnames, rfl⟩⟩
  have hrun := Linter.lintProgram_eq_ok_iff.mpr
    ⟨fun active (_ : active ∈ l.active) s hs => hcheck s hs active.1 active.2, rfl⟩
  exact ⟨l, program, _, hl, hp, hcheck,
    Linter.lintSource_eq_ok_iff.mpr ⟨⟨known, supported⟩, program, hp, hrun⟩⟩

/-- The tree of `let é.b =`, of which the declaration has lost its declarator, and the assignment
its right side and the name of the member, while its left side is there twice. -/
def damaged : SyntaxTree :=
  .mk "ERROR" true none ⟨0, 10, 0, 0⟩
    [.mk "lexical_declaration" true none ⟨0, 3, 0, 0⟩ [.mk "let" false none ⟨0, 3, 0, 0⟩ []],
      .mk "assignment_expression" true none ⟨4, 10, 0, 4⟩
        [.mk "member_expression" true (some "left") ⟨4, 7, 0, 4⟩
          [.mk "identifier" true (some "object") ⟨4, 6, 0, 4⟩ []],
        .mk "property_identifier" true (some "left") ⟨7, 8, 0, 7⟩ []]]

theorem damaged_returns_findings : damaged.Legible (.ofText "let é.b =") ∧
    ∃ l program findings,
      Linter.create (.shared {}) (some ["no-mutation", "no-mutation"]) = .ok l ∧
      damaged.program (.ofText "let é.b =") = .ok program ∧
      (∀ s ∈ Site.walk program, ∀ (r : Rule) (o : Options), ∃ v,
        r.check o ⟨.ofText "let é.b =", none⟩ s = .ok v) ∧
      (l.lintSource (.ofText "let é.b =") "tsx" damaged none).result = .ok findings := by
  have htext : ∀ s ∈ damaged.preorder, (Source.ofText "let é.b =").IsText s.extent := by
    unfold Source.IsText
    decide +kernel
  have hlegible : damaged.Legible (.ofText "let é.b =") := ⟨htext, by decide +kernel⟩
  have hrules : ∀ ns ∈ some [Text.ofString "no-mutation", "no-mutation"], ∀ n ∈ ns,
      ∃ r, Rule.ofName? n = some r := by
    intro ns hns n hn
    obtain rfl := Option.some.inj hns
    obtain rfl : n = Text.ofString "no-mutation" := by simpa using hn
    exact ⟨.noMutation, Rule.ofName?_name .noMutation⟩
  have hlanguage : Language.ofName? (Text.ofString "tsx") = some .tsx := by decide
  exact ⟨hlegible, lintSource_returns_findings hlegible hlanguage (.shared {}) hrules none⟩

end MutationLint
