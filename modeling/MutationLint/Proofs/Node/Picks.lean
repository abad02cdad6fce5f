import MutationLint.Node.Unfold
import MutationLint.Proofs.SyntaxTree.Respelling

/-! What a node is built from is picked from its children: by field, by grammar name or as content.
Where the children were respelled, what is picked is built as before. -/

namespace MutationLint

namespace SyntaxTree

section
variable {source : Source}

/-! ### What the parent sees of a respelled child -/

structure Resembles (source : Source) (a b : SyntaxTree) : Prop where
  kind : b.kind = a.kind
  named : b.named = a.named
  field : b.field = a.field
  extent : b.extent = a.extent
  built : b.build source = a.build source
  content : b.content.map (build source) = a.content.map (build source)

structure Wrapped (source : Source) (a b : SyntaxTree) : Prop where
  expression : a.isExpression = true
  kind : b.kind = "parenthesized_expression"
  named : b.named = true
  field : b.field = a.field
  built : b.build source = a.build source

/-- The second tree can take the place of the first where a form holds it. -/
def StandsFor (source : Source) (parent : Option Form) (a b : SyntaxTree) : Prop :=
  Resembles source a b ∨ (∀ p ∈ parent, p.holdsOperand a.field = true) ∧ Wrapped source a b

theorem Resembles.refl (a : SyntaxTree) : Resembles source a a := ⟨rfl, rfl, rfl, rfl, rfl, rfl⟩

theorem Resembles.form {a b : SyntaxTree} (h : Resembles source a b) : b.form = a.form := by
  rw [SyntaxTree.form, h.kind]
  rfl

theorem Wrapped.isExpressionKind {a b : SyntaxTree} (h : Wrapped source a b) :
    Form.isExpressionKind a.kind = true := (Bool.and_eq_true_iff.mp h.expression).2

theorem Wrapped.isExpression_form {a b : SyntaxTree} (h : Wrapped source a b) :
    a.form.isExpression = true := by
  have hkind := h.isExpressionKind
  rw [Form.isExpressionKind, Bool.and_eq_true, Bool.and_eq_true] at hkind
  exact hkind.1.1

theorem Wrapped.form_eq {a b : SyntaxTree} (h : Wrapped source a b) : b.form = .parenthesized := by
  rw [SyntaxTree.form, h.kind]
  decide

theorem StandsFor.refl (parent : Option Form) (a : SyntaxTree) : StandsFor source parent a a :=
  .inl (.refl a)

namespace StandsFor
variable {parent : Option Form} {a b : SyntaxTree} (h : StandsFor source parent a b)
include h

theorem field : b.field = a.field := by
  rcases h with h | ⟨-, h⟩
  · exact h.field
  · exact h.field

theorem built : b.build source = a.build source := by
  rcases h with h | ⟨-, h⟩
  · exact h.built
  · exact h.built

theorem named : b.named = a.named := by
  rcases h with h | ⟨-, h⟩
  · exact h.named
  · rw [h.named, (Bool.and_eq_true_iff.mp h.expression).1]

theorem test {p : String → Bool} (hp : Form.NoExpression p) : p b.kind = p a.kind := by
  rcases h with h | ⟨-, h⟩
  · rw [h.kind]
  · have ha : p a.kind = false := hp.eq_false h.isExpressionKind
    rw [ha, h.kind, hp.eq_false Form.isExpressionKind_parenthesized]

theorem resembles {p : String → Bool} (hp : Form.NoExpression p) (ha : p a.kind = true) :
    Resembles source a b := by
  rcases h with h | ⟨-, h⟩
  · exact h
  · have hno := hp.eq_false h.isExpressionKind
    exact absurd (hno.symm.trans ha) (by decide)

theorem resembles_of_not_holds {p : Form} (hp : parent = some p)
    (hno : p.holdsOperand a.field = false) : Resembles source a b := by
  rcases h with h | ⟨hyes, -⟩
  · exact h
  · exact absurd (hno.symm.trans (hyes p hp)) (by decide)

theorem isTrivia : b.isTrivia = a.isTrivia :=
  h.test (Form.noExpression_form (f := .trivia) rfl)

theorem isComputedKey : b.isComputedKey = a.isComputedKey :=
  h.test (Form.noExpression_mark (by decide))

theorem updateOperator? : b.updateOperator? = a.updateOperator? := by
  rw [SyntaxTree.updateOperator?, h.test (Form.noExpression_mark (by decide)),
    h.test (Form.noExpression_mark (by decide))]
  rfl

end StandsFor

/-! ### What is picked from the children of a node -/

/-- Two trees with the same outside, the second with the children of the first respelled. -/
structure Alike (source : Source) (t t' : SyntaxTree) : Prop where
  kind : t'.kind = t.kind
  extent : t'.extent = t.extent
  children : Padded (StandsFor source (some t.form)) t.children t'.children
  first : Option.Rel (StandsFor source (some t.form)) t.children.head? t'.children.head?

theorem map_build_of_forall₂ {R : SyntaxTree → SyntaxTree → Prop} {as bs : List SyntaxTree}
    (hR : ∀ a b, R a b → b.build source = a.build source) (h : List.Forall₂ R as bs) :
    bs.map (build source) = as.map (build source) := by
  induction h with
  | nil => rfl
  | cons hab _ ih => rw [List.map_cons, List.map_cons, hR _ _ hab, ih]

/-- What is picked by a name that no expression has is not in parentheses now. -/
theorem filter_of_forall₂ {parent : Option Form} {as bs : List SyntaxTree} {p : String → Bool}
    (hp : Form.NoExpression p) (h : List.Forall₂ (StandsFor source parent) as bs) :
    List.Forall₂ (Resembles source) (as.filter (p ·.kind)) (bs.filter (p ·.kind)) := by
  induction h with
  | nil => exact .nil
  | @cons a b as bs hab _ ih =>
    rw [List.filter_cons, List.filter_cons, hab.test hp]
    split
    · rename_i hpa
      exact .cons (hab.resembles hp hpa) ih
    · exact ih

theorem map_build_flatMap_content {as bs : List SyntaxTree}
    (h : List.Forall₂ (Resembles source) as bs) :
    (bs.flatMap content).map (build source) = (as.flatMap content).map (build source) := by
  induction h with
  | nil => rfl
  | cons hab _ ih =>
    rw [List.flatMap_cons, List.flatMap_cons, List.map_append, List.map_append, hab.content, ih]

theorem Resembles.map_head? {a b : SyntaxTree} (h : Resembles source a b) :
    b.content.head?.map (build source) = a.content.head?.map (build source) := by
  rw [← List.head?_map, ← List.head?_map, h.content]

namespace Alike
variable {t t' : SyntaxTree} (h : Alike source t t')
include h

theorem form : t'.form = t.form := by
  rw [SyntaxTree.form, h.kind]
  rfl

theorem field?_cases (name : String) : (t.field? name = none ∧ t'.field? name = none) ∨
    ∃ a b, t.field? name = some a ∧ t'.field? name = some b ∧ a.field = some name ∧
      StandsFor source (some t.form) a b := by
  have hR (a b : SyntaxTree) (hab : StandsFor source (some t.form) a b) :
      (b.field == some name) = (a.field == some name) := by rw [hab.field]
  have hc (c : SyntaxTree) (hc : c.isComment = true) : (c.field == some name) = false := by
    rw [isComment, Bool.and_eq_true, Option.isNone_iff_eq_none] at hc
    rw [hc.2]
    rfl
  rcases cases_of_rel (h.children.find? hR hc) with hnone | ⟨a, b, ha, hb, hab⟩
  · exact .inl hnone
  · have hfield : (a.field == some name) = true := by simpa using List.find?_some ha
    exact .inr ⟨a, b, ha, hb, eq_of_beq hfield, hab⟩

theorem content : List.Forall₂ (StandsFor source (some t.form)) t.content t'.content := by
  refine h.children.filter (fun a b hab => ?_) (fun c hc => ?_)
  · rw [hab.named, hab.isTrivia]
  · rw [isComment, Bool.and_eq_true, Bool.and_eq_true] at hc
    rw [hc.1.2, Bool.not_true, Bool.and_false]

theorem map_content : t'.content.map (build source) = t.content.map (build source) :=
  map_build_of_forall₂ (fun _ _ hab => hab.built) h.content

theorem map_head? : t'.content.head?.map (build source) = t.content.head?.map (build source) := by
  rw [← List.head?_map, ← List.head?_map, h.map_content]

theorem field?_map {α : Type} {ask : SyntaxTree → α} {name : String} (hask : ∀ a b,
    a.field = some name → StandsFor source (some t.form) a b → ask b = ask a) :
    (t'.field? name).map ask = (t.field? name).map ask := by
  obtain ⟨ha, hb⟩ | ⟨a, b, ha, hb, hfield, hab⟩ := h.field?_cases name
  · rw [ha, hb]
  · rw [ha, hb, Option.map_some, Option.map_some, hask a b hfield hab]

theorem map_field? (name : String) :
    (t'.field? name).map (build source) = (t.field? name).map (build source) :=
  h.field?_map fun _ _ _ hab => hab.built

theorem filter {p : String → Bool} (hp : Form.NoExpression p) :
    List.Forall₂ (Resembles source) (t.content.filter (p ·.kind)) (t'.content.filter (p ·.kind)) :=
  filter_of_forall₂ hp h.content

theorem hasToken (mark : String) (hm : mark ∈ Form.marks) :
    t'.hasToken mark = t.hasToken mark := by
  have htrivia : ∀ m ∈ Form.marks, Form.ofKind m ≠ .trivia := by decide
  refine h.children.any (fun a b hab => ?_) (fun c hc => ?_)
  · exact hab.test (Form.noExpression_mark hm)
  · exact beq_kind_of_isComment hc (htrivia mark hm)

/-! ### The parts of each form -/

theorem map_clause? (name : String) :
    (t'.clause? name).map (build source) = (t.clause? name).map (build source) := by
  rw [SyntaxTree.clause?, SyntaxTree.clause?]
  obtain ⟨ha, hb⟩ | ⟨a, b, ha, hb, -, hab⟩ := h.field?_cases name
  · rw [ha, hb]
  · rw [ha, hb, Option.bind_some, Option.bind_some]
    rcases hab with hr | ⟨-, hw⟩
    · rw [hr.form]
      split
      · rfl
      · exact hr.map_head?
      · rw [Option.map_some, Option.map_some, hr.built]
    · have hform := hw.isExpression_form
      rw [hw.form_eq]
      change some (b.build source) = _
      split
      · rename_i he
        rw [he] at hform
        cases hform
      · rename_i he
        rw [he] at hform
        cases hform
      · rw [hw.built, Option.map_some]

theorem map_parameters (hf : t.form.holdsOperand (some "parameters") = false) :
    t'.parameters.map (build source) = t.parameters.map (build source) := by
  rw [parameters, parameters]
  obtain ⟨ha, hb⟩ | ⟨a, b, ha, hb, hfield, hab⟩ := h.field?_cases "parameters"
  · rw [ha, hb]
  · have hr := hab.resembles_of_not_holds rfl (hfield ▸ hf)
    rw [ha, hb, Option.map_some, Option.map_some, Option.getD_some, Option.getD_some, hr.content]

theorem map_arrowParameters (hf : t.form.holdsOperand (some "parameters") = false) :
    t'.arrowParameters.map (build source) = t.arrowParameters.map (build source) := by
  rw [arrowParameters, arrowParameters]
  obtain ⟨ha, hb⟩ | ⟨a, b, ha, hb, -, hab⟩ := h.field?_cases "parameter"
  · rw [ha, hb]
    exact h.map_parameters hf
  · rw [ha, hb, List.map_singleton, List.map_singleton, hab.built]

theorem map_superclass? :
    t'.superclass?.map (build source) = t.superclass?.map (build source) := by
  rw [superclass?, superclass?, ← List.head?_filter, ← List.head?_filter]
  have hfilter := h.filter (Form.noExpression_mark (show "class_heritage" ∈ Form.marks by decide))
  obtain ⟨ha, hb⟩ | ⟨a, b, ha, hb, hr⟩ := cases_of_rel (head?_of_forall₂ hfilter)
  · rw [ha, hb]
  · rw [ha, hb]
    exact hr.map_head?

theorem isComputedKey (name : String) :
    (t'.field? name).map SyntaxTree.isComputedKey = (t.field? name).map SyntaxTree.isComputedKey :=
  h.field?_map fun _ _ _ hab => hab.isComputedKey

theorem map_key? (name : String) :
    (t'.key? name).map (build source) = (t.key? name).map (build source) := by
  rw [SyntaxTree.key?, SyntaxTree.key?]
  obtain ⟨ha, hb⟩ | ⟨a, b, ha, hb, -, hab⟩ := h.field?_cases name
  · rw [ha, hb]
  · rw [ha, hb, Option.bind_some, Option.bind_some, hab.isComputedKey]
    split
    · rename_i hk
      exact (hab.resembles (Form.noExpression_mark (by decide)) hk).map_head?
    · rw [Option.map_some, Option.map_some, hab.built]

theorem map_argumentTrees :
    t'.argumentTrees.map (build source) = t.argumentTrees.map (build source) := by
  rw [argumentTrees, argumentTrees]
  have hno := Form.noExpression_mark (show "arguments" ∈ Form.marks by decide)
  obtain ⟨ha, hb⟩ | ⟨a, b, ha, hb, -, hab⟩ := h.field?_cases "arguments"
  · rw [ha, hb]
  · simp only [ha, hb, hab.test hno]
    split
    · rename_i hk
      exact (hab.resembles hno hk).content
    · rw [List.map_singleton, List.map_singleton, hab.built]

theorem map_substitutions :
    ((t'.content.filter (·.kind == "template_substitution")).flatMap SyntaxTree.content).map
        (build source) =
      ((t.content.filter (·.kind == "template_substitution")).flatMap SyntaxTree.content).map
        (build source) :=
  map_build_flatMap_content (h.filter (Form.noExpression_mark (by decide)))

theorem map_declarators : (t'.content.filter (·.form == .declarator)).map (build source) =
    (t.content.filter (·.form == .declarator)).map (build source) :=
  map_build_of_forall₂ (fun _ _ hr => hr.built)
    (h.filter (Form.noExpression_form rfl))

theorem declarationKind? (hf : t.form = .declaration) :
    t'.declarationKind? = t.declarationKind? := by
  have hkind {a b : SyntaxTree} (hab : StandsFor source (some t.form) a b) : b.kind = a.kind :=
    (hab.resembles_of_not_holds rfl (by rw [hf]; rfl)).kind
  rw [SyntaxTree.declarationKind?, SyntaxTree.declarationKind?]
  obtain ⟨ha, hb⟩ | ⟨a, b, ha, hb, -, hab⟩ := h.field?_cases "kind"
  · rw [ha, hb, Option.none_or, Option.none_or]
    obtain ⟨ha, hb⟩ | ⟨a, b, ha, hb, hab⟩ := cases_of_rel h.first
    · rw [ha, hb]
    · rw [ha, hb, Option.map_some, Option.map_some, hkind hab]
  · rw [ha, hb, Option.some_or, Option.some_or, Option.map_some, Option.map_some, hkind hab]

theorem exported?_cases : (t.exported? = none ∧ t'.exported? = none) ∨
    ∃ a b, t.exported? = some a ∧ t'.exported? = some b ∧ b.build source = a.build source := by
  rw [exported?, exported?]
  obtain ⟨ha, hb⟩ | ⟨a, b, ha, hb, -, hab⟩ := h.field?_cases "declaration"
  · obtain ⟨hv, hv'⟩ | ⟨v, v', hv, hv', -, -⟩ := h.field?_cases "value"
    · rw [ha, hb, hv, hv', ← List.head?_filter, ← List.head?_filter]
      have hfilter := h.filter Form.noExpression_declaration
      obtain hnone | ⟨a, b, ha, hb, hr⟩ := cases_of_rel (head?_of_forall₂ hfilter)
      · exact .inl hnone
      · exact .inr ⟨a, b, ha, hb, hr.built⟩
    · rw [ha, hb, hv, hv']
      exact .inl ⟨rfl, rfl⟩
  · rw [ha, hb]
    exact .inr ⟨a, b, rfl, rfl, hab.built⟩

theorem isConcise : (t'.field? "body").map (·.form != .block) =
    (t.field? "body").map (·.form != .block) := by
  refine h.field?_map fun a b _ hab => ?_
  have hblock : (b.form == .block) = (a.form == .block) :=
    hab.test (Form.noExpression_form (f := .block) rfl)
  rw [bne, bne, hblock]

theorem operator (hf : t.form = .assignment) :
    (t'.field? "operator").map SyntaxTree.kind = (t.field? "operator").map SyntaxTree.kind := by
  refine h.field?_map fun a b hfield hab => ?_
  exact (hab.resembles_of_not_holds rfl (by rw [hf, hfield]; rfl)).kind

theorem updateOperator? : t'.children.findSome? SyntaxTree.updateOperator? =
    t.children.findSome? SyntaxTree.updateOperator? := by
  refine h.children.findSome? (fun a b hab => hab.updateOperator?) (fun c hc => ?_)
  rw [SyntaxTree.updateOperator?, beq_kind_of_isComment hc (by decide),
    beq_kind_of_isComment hc (by decide)]
  rfl

theorem leadingOperator? : t'.children.head?.bind SyntaxTree.updateOperator? =
    t.children.head?.bind SyntaxTree.updateOperator? := by
  obtain ⟨ha, hb⟩ | ⟨a, b, ha, hb, hab⟩ := cases_of_rel h.first
  · rw [ha, hb]
  · rw [ha, hb, Option.bind_some, Option.bind_some, hab.updateOperator?]

end Alike
end
end SyntaxTree
end MutationLint
