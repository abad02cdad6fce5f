import Mathlib.Logic.Relation
import MutationLint.Proofs.Node.Picks

/-! Comments and parentheses leave no trace in the program: trees that are picked alike are built
alike, so that each step of respelling keeps what is built, and any number of steps does. -/

namespace MutationLint

/-! ### Layouts with parts that are made alike -/

namespace Layout

section
variable {source : Source} {build : SyntaxTree → Built} {extent : Extent}

theorem collect_map {α β : Type} (make : α → Except BuildFault (Option β))
    (as : List (Role × α)) : collect id (as.map (Prod.map id make)) = collect make as := by
  induction as with
  | nil => rfl
  | cons a rest ih =>
    obtain ⟨role, a⟩ := a
    rw [List.map_cons, Prod.map_apply, collect, collect, ih]
    rfl

theorem collect_of_map {α β : Type} {make : α → Except BuildFault (Option β)}
    {as bs : List (Role × α)}
    (h : bs.map (Prod.map id make) = as.map (Prod.map id make)) :
    collect make bs = collect make as := by
  rw [← collect_map, h, collect_map]

theorem assemble_node_of_map {label : Label} {ps qs : List (Role × Part)}
    (h : qs.map (Prod.map id (makePart source build extent)) =
      ps.map (Prod.map id (makePart source build extent))) :
    (node label qs).assemble source build extent =
      (node label ps).assemble source build extent := by
  rw [assemble, assemble, collect_of_map h]

theorem makePart_group_of_map {label : Label} {ps qs : List (Role × Piece)}
    (h : qs.map (Prod.map id (makePiece source build)) =
      ps.map (Prod.map id (makePiece source build))) :
    makePart source build extent (.group label qs) =
      makePart source build extent (.group label ps) := by
  rw [makePart, makePart, collect_of_map h]

theorem makePiece_spelled_of_extent {a b : SyntaxTree} (h : b.extent = a.extent) :
    makePiece source build (.spelled b) = makePiece source build (.spelled a) := by
  rw [makePiece, makePiece, h]

theorem map_all (role : Role) (ts : List SyntaxTree) :
    (all role ts).map (Prod.map id (makePart source build extent)) =
      (ts.map build).map (role, ·) := by
  rw [all, List.map_map, List.map_map]
  rfl

theorem map_one (role : Role) (t? : Option SyntaxTree) :
    (one role t?).map (Prod.map id (makePart source build extent)) =
      (t?.map build).toList.map (role, ·) := by
  rw [one, map_all, Option.toList_map]

theorem map_pieces (role : Role) (ts : List SyntaxTree) :
    (pieces role ts).map (Prod.map id (makePiece source build)) =
      (ts.map build).map (role, ·) := by
  rw [pieces, List.map_map, List.map_map]
  rfl

end
end Layout

namespace SyntaxTree

namespace Alike
variable {source : Source} {t t' : SyntaxTree} (h : Alike source t t')
include h

variable {extent : Extent}

theorem assemble_exportLayout : t'.exportLayout.assemble source (build source) extent =
    t.exportLayout.assemble source (build source) extent := by
  rw [exportLayout, exportLayout, h.hasToken "default" (by decide)]
  obtain ⟨ha, hb⟩ | ⟨a, b, ha, hb, hab⟩ := h.exported?_cases
  · obtain ⟨hv, hv'⟩ | ⟨v, v', hv, hv', -, hvv⟩ := h.field?_cases "value"
    · rw [ha, hb, hv, hv']
    · rw [ha, hb, hv, hv']
      refine Layout.assemble_node_of_map ?_
      rw [List.map_singleton, List.map_singleton, Prod.map_apply, Prod.map_apply, Layout.makePart,
        Layout.makePart, Layout.makePiece, Layout.makePiece, hvv.built]
  · rw [ha, hb]
    refine Layout.assemble_node_of_map ?_
    rw [Layout.map_one, Layout.map_one, Option.map_some, Option.map_some, hab]

theorem map_functionParts (hf : t.form.holdsOperand (some "parameters") = false) :
    t'.functionParts.map (Prod.map id (Layout.makePart source (build source) extent)) =
      t.functionParts.map (Prod.map id (Layout.makePart source (build source) extent)) := by
  simp only [functionParts, List.map_append, Layout.map_one, Layout.map_all, h.map_field?,
    h.map_parameters hf]

theorem map_classParts :
    t'.classParts.map (Prod.map id (Layout.makePart source (build source) extent)) =
      t.classParts.map (Prod.map id (Layout.makePart source (build source) extent)) := by
  simp only [classParts, List.map_append, Layout.map_one, h.map_field?, h.map_superclass?]

theorem assemble_methodLayout (hf : t.form.holdsOperand (some "parameters") = false) :
    t'.methodLayout.assemble source (build source) extent =
      t.methodLayout.assemble source (build source) extent := by
  have hgroup (label : Label) :
      Layout.makePart source (build source) extent (.group label
        (Layout.pieces .params t'.parameters ++ Layout.pieces .body (t'.field? "body").toList)) =
      Layout.makePart source (build source) extent (.group label
        (Layout.pieces .params t.parameters ++ Layout.pieces .body (t.field? "body").toList)) := by
    refine Layout.makePart_group_of_map ?_
    simp only [List.map_append, Layout.map_pieces, h.map_parameters hf, ← Option.toList_map,
      h.map_field?]
  rw [methodLayout, methodLayout, methodKind, methodKind]
  rw [h.hasToken "get" (by decide), h.hasToken "set" (by decide),
    h.hasToken "static" (by decide), h.hasToken "*" (by decide),
    h.hasToken "async" (by decide)]
  refine Layout.assemble_node_of_map ?_
  simp only [List.map_append, Layout.map_one, h.map_key?, List.map_cons, List.map_nil,
    Prod.map_apply, hgroup]

theorem assemble_updateLayout : t'.updateLayout.assemble source (build source) extent =
    t.updateLayout.assemble source (build source) extent := by
  rw [updateLayout, updateLayout, h.updateOperator?, h.leadingOperator?]
  refine Layout.assemble_node_of_map ?_
  rw [Layout.map_one, Layout.map_one, Option.map_or, Option.map_or, h.map_field?, h.map_head?]

theorem assemble_pairLayout : t'.pairLayout.assemble source (build source) extent =
    t.pairLayout.assemble source (build source) extent := by
  rw [pairLayout, pairLayout, h.isComputedKey]
  refine Layout.assemble_node_of_map ?_
  simp only [List.map_append, Layout.map_one, h.map_key?, h.map_field?]

theorem assemble_defaultedLayout (hf : t.form = .defaultedProperty) :
    t'.defaultedLayout.assemble source (build source) extent =
      t.defaultedLayout.assemble source (build source) extent := by
  have hvalue (left left' : List (Role × Piece))
      (hleft : left'.map (Prod.map id (Layout.makePiece source (build source))) =
        left.map (Prod.map id (Layout.makePiece source (build source)))) :
      Layout.makePart source (build source) extent (.group .assignmentPattern
        (left' ++ Layout.pieces .right (t'.field? "right").toList)) =
      Layout.makePart source (build source) extent (.group .assignmentPattern
        (left ++ Layout.pieces .right (t.field? "right").toList)) := by
    refine Layout.makePart_group_of_map ?_
    simp only [List.map_append, hleft, Layout.map_pieces, ← Option.toList_map, h.map_field?]
  rw [defaultedLayout, defaultedLayout]
  refine Layout.assemble_node_of_map ?_
  obtain ⟨ha, hb⟩ | ⟨a, b, ha, hb, hfield, hab⟩ := h.field?_cases "left"
  · simp only [ha, hb, List.map_cons, List.map_nil, Prod.map_apply, hvalue [] [] rfl]
  · have hr := hab.resembles_of_not_holds rfl (by rw [hf, hfield]; rfl)
    simp only [ha, hb, hr.form]
    split
    · have hname : Layout.makePiece source (build source) (.spelled b) =
          Layout.makePiece source (build source) (.spelled a) :=
        Layout.makePiece_spelled_of_extent hr.extent
      have hleft := hvalue [(.left, .spelled a)] [(.left, .spelled b)]
        (by rw [List.map_singleton, List.map_singleton, Prod.map_apply, Prod.map_apply, hname])
      simp only [List.map_cons, List.map_nil, Prod.map_apply, hleft]
      rw [Layout.makePart, Layout.makePart, hname]
    · have hleft := hvalue [(.left, .built a)] [(.left, .built b)]
        (by rw [List.map_singleton, List.map_singleton, Prod.map_apply, Prod.map_apply,
          Layout.makePiece, Layout.makePiece, hr.built])
      simp only [List.map_cons, List.map_nil, Prod.map_apply, hleft]

/-- Trees that are picked from alike are built alike. -/
theorem build_eq : t'.build source = t.build source := by
  -- by the form: its label is read off marks and names, its parts are fields or content
  rw [SyntaxTree.build_eq, SyntaxTree.build_eq, h.extent, layout, layout, h.form]
  cases hf : t.form
  case trivia | emptyStatement | thisWord | superWord | identifier | literal => rfl
  case parenthesized =>
    obtain ⟨ha, hb⟩ | ⟨a, b, ha, hb, hab⟩ := cases_of_rel (head?_of_forall₂ h.content)
    · rw [ha, hb]
    · rw [ha, hb]
      exact hab.built
  case program | block | classBody | object | array | objectPattern | arrayPattern =>
    refine Layout.assemble_node_of_map ?_
    rw [Layout.map_all, Layout.map_all, h.map_content]
  case expressionStatement | returnStatement | spread | rest | cast =>
    refine Layout.assemble_node_of_map ?_
    rw [Layout.map_one, Layout.map_one, h.map_head?]
  case declaration =>
    rw [h.declarationKind? hf]
    cases t.declarationKind? with
    | none => rfl
    | some k =>
      refine Layout.assemble_node_of_map ?_
      rw [Layout.map_all, Layout.map_all, h.map_declarators]
  case declarator | conditional | assignmentPattern =>
    refine Layout.assemble_node_of_map ?_
    simp only [List.map_append, Layout.map_one, h.map_field?]
  case forStatement =>
    refine Layout.assemble_node_of_map ?_
    simp only [List.map_append, Layout.map_one, h.map_field?, h.map_clause?]
  case exportStatement => exact h.assemble_exportLayout
  case functionDeclaration | functionExpression =>
    rw [h.hasToken "*" (by decide), h.hasToken "async" (by decide)]
    exact Layout.assemble_node_of_map (h.map_functionParts (by rw [hf]; rfl))
  case arrowFunction =>
    rw [h.isConcise, h.hasToken "async" (by decide)]
    refine Layout.assemble_node_of_map ?_
    simp only [List.map_append, Layout.map_all, Layout.map_one, h.map_field?,
      h.map_arrowParameters (show t.form.holdsOperand _ = false by rw [hf]; rfl)]
  case classDeclaration | classExpression => exact Layout.assemble_node_of_map h.map_classParts
  case method => exact h.assemble_methodLayout (by rw [hf]; rfl)
  case template =>
    refine Layout.assemble_node_of_map ?_
    rw [Layout.map_all, Layout.map_all, h.map_substitutions]
  case member | subscript | call | construct =>
    simp only [h.hasToken "optional_chain" (by decide)]
    refine Layout.assemble_node_of_map ?_
    simp only [List.map_append, Layout.map_one, Layout.map_all, h.map_field?, h.map_argumentTrees]
  case assignment =>
    rw [h.operator hf]
    refine Layout.assemble_node_of_map ?_
    simp only [List.map_append, Layout.map_one, h.map_field?]
  case update => exact h.assemble_updateLayout
  case pair => exact h.assemble_pairLayout
  case shorthand =>
    refine Layout.assemble_node_of_map ?_
    simp only [List.map_cons, List.map_nil, Prod.map_apply, Layout.makePart,
      Layout.makePiece_spelled_of_extent h.extent]
  case defaultedProperty => exact h.assemble_defaultedLayout hf
  case parameter =>
    simp only [Layout.assemble, h.map_field?]
  case other =>
    rw [h.kind]
    refine Layout.assemble_node_of_map ?_
    rw [Layout.map_all, Layout.map_all, h.map_content]

end Alike

/-! ### Steps and runs of respelling -/

section
variable {source : Source}

theorem alike_cons {k : String} {n n' : Bool} {f f' : Option String} {e : Extent}
    {a b : SyntaxTree} {as bs : List SyntaxTree} (hab : StandsFor source (some (.ofKind k)) a b)
    (h : Padded (StandsFor source (some (.ofKind k))) as bs) :
    Alike source (.mk k n f e (a :: as)) (.mk k n' f' e (b :: bs)) :=
  ⟨rfl, rfl, .cons hab h, .some hab⟩

theorem alike_under (t : SyntaxTree) (field : Option String) : Alike source t (t.under field) := by
  obtain ⟨k, n, f, e, cs⟩ := t
  cases cs with
  | nil => exact ⟨rfl, rfl, .nil, .none⟩
  | cons a as => exact alike_cons (.refl _ a) (.refl (.refl _) as)

theorem Encloses.build_eq {w t : SyntaxTree} (h : w.Encloses t) :
    w.build source = t.build source := by
  obtain ⟨field, hcontent⟩ := h.content
  have hform : w.form = .parenthesized := by
    rw [form, h.kind]
    decide
  rw [SyntaxTree.build_eq, layout, hform, hcontent, ← (alike_under t field).build_eq]
  rfl

theorem Alike.resembles {t t' : SyntaxTree} (h : Alike source t t') (hnamed : t'.named = t.named)
    (hfield : t'.field = t.field) : Resembles source t t' :=
  ⟨h.kind, hnamed, hfield, h.extent, h.build_eq, h.map_content⟩

/-- A step of respelling puts a tree in the place of one that it stands for. -/
theorem Respells.standsFor {parent : Option Form} {t t' : SyntaxTree}
    (h : Respells Form.holdsOperand parent t t') : StandsFor source parent t t' := by
  induction h with
  | @comment parent k n f e before after c hbefore hc =>
    cases before with
    | nil => exact absurd rfl hbefore
    | cons x rest =>
      refine .inl (Alike.resembles (alike_cons (.refl _ x) ?_) rfl rfl)
      exact Padded.append_left (.refl _) rest (.comment hc (.refl (.refl _) after))
  | @parentheses parent t w he hheld hw =>
    exact .inr ⟨hheld, he, hw.kind, hw.named, hw.field, hw.build_eq⟩
  | @inside parent k n f e before after a b _ ih =>
    cases before with
    | nil => exact .inl ((alike_cons ih (.refl (.refl _) after)).resembles rfl rfl)
    | cons x rest =>
      refine .inl (Alike.resembles (alike_cons (.refl _ x) ?_) rfl rfl)
      exact Padded.append_left (.refl _) rest (.cons ih (.refl (.refl _) after))

theorem Respells.build_eq {parent : Option Form} {t t' : SyntaxTree}
    (h : Respells Form.holdsOperand parent t t') : t'.build source = t.build source :=
  h.standsFor.built

/-- However comments and parentheses are put into a tree, the program is the same. -/
theorem program_of_respelled {t t' : SyntaxTree}
    (h : Relation.ReflTransGen (Respells Form.holdsOperand none) t t') (source : Source) :
    t'.program source = t.program source := by
  induction h with
  | refl => rfl
  | @tail s t' _ hstep ih => rw [← ih, program, program, hstep.build_eq]

end

def parenthesized (t : SyntaxTree) : SyntaxTree :=
  .mk "parenthesized_expression" true t.field t.extent
    [.mk "(" false none t.extent [], t.under none, .mk ")" false none t.extent []]

def nameAt (column : Int) (field : String) : SyntaxTree :=
  .mk "identifier" true (some field) ⟨column, column + 1, 0, column⟩ []

theorem respells_name {mayHold : Form → Option String → Bool} {parent : Form} (column : Int)
    (field : String) (h : mayHold parent (some field) = true) :
    Respells mayHold (some parent) (nameAt column field) (nameAt column field).parenthesized := by
  have hkind : Form.isExpressionKind "identifier" = true := by decide +kernel
  have hheld : ∀ p ∈ some parent, mayHold p (some field) = true := by
    intro p hp
    exact Option.some.inj hp ▸ h
  exact .parentheses hkind hheld ⟨rfl, rfl, rfl, none, rfl⟩

def assignmentOf (parts : List SyntaxTree) : SyntaxTree :=
  .mk "assignment_expression" true none ⟨0, 5, 0, 0⟩ parts

/-- The tree of `a = b`. -/
def plainAssignment : SyntaxTree :=
  assignmentOf [nameAt 0 "left", .mk "=" false none ⟨2, 3, 0, 2⟩ [], nameAt 4 "right"]

/-- The same, respelled as `a /**/ = (b)` is. -/
def spacedAssignment : SyntaxTree :=
  assignmentOf [nameAt 0 "left", .mk "comment" true none ⟨1, 2, 0, 1⟩ [],
    .mk "=" false none ⟨2, 3, 0, 2⟩ [], (nameAt 4 "right").parenthesized]

theorem spacedAssignment_program :
    Relation.ReflTransGen (Respells Form.holdsOperand none) plainAssignment spacedAssignment ∧
      spacedAssignment.program (.ofText "a = b") = plainAssignment.program (.ofText "a = b") := by
  have hparentheses := @Respells.inside Form.holdsOperand none "assignment_expression" true none
    ⟨0, 5, 0, 0⟩ [nameAt 0 "left", .mk "=" false none ⟨2, 3, 0, 2⟩ []] [] _ _
    (respells_name 4 "right" rfl)
  have hcomment := @Respells.comment Form.holdsOperand none "assignment_expression" true none
    ⟨0, 5, 0, 0⟩ [nameAt 0 "left"]
    [.mk "=" false none ⟨2, 3, 0, 2⟩ [], (nameAt 4 "right").parenthesized]
    (.mk "comment" true none ⟨1, 2, 0, 1⟩ []) (by decide) (by decide)
  have hrun : Relation.ReflTransGen (Respells Form.holdsOperand none) plainAssignment
      spacedAssignment := .tail (.single hparentheses) hcomment
  exact ⟨hrun, program_of_respelled hrun _⟩

def assignmentBy (operator : SyntaxTree) : SyntaxTree :=
  assignmentOf [nameAt 0 "left", operator, nameAt 4 "right"]

/-- Parentheses around what stands for the operator of an assignment do show: the operator is known
by its grammar name. -/
theorem operator_shows_parentheses :
    Relation.ReflTransGen (Respells Form.holdsExpression none) (assignmentBy (nameAt 2 "operator"))
        (assignmentBy (nameAt 2 "operator").parenthesized) ∧
      (assignmentBy (nameAt 2 "operator").parenthesized).program (.ofText "a b c") ≠
        (assignmentBy (nameAt 2 "operator")).program (.ofText "a b c") := by
  have hstep := @Respells.inside Form.holdsExpression none "assignment_expression" true none
    ⟨0, 5, 0, 0⟩ [nameAt 0 "left"] [nameAt 4 "right"] _ _ (respells_name 2 "operator" rfl)
  refine ⟨.single hstep, fun hsame => ?_⟩
  have hlabels :=
    congrArg (fun p => p.toOption.map fun n => n.children.map fun c => c.2.label) hsame
  exact absurd hlabels (by decide +kernel)

end SyntaxTree
end MutationLint
