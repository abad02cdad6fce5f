import Mathlib.Data.List.Forall2
import MutationLint.SyntaxTree.Form

/-! Two spellings of one program. A tree is respelled by putting comments between its nodes and
parentheses around its expressions. What this does to the children of a node is seen in what can be
picked from them: comments aside, each pick is the old child or one that took its place. -/

namespace MutationLint

namespace Form

/-- The forms that can stand in parentheses. Comments, statements and declarations cannot, and
neither can what a class is made of. -/
def isExpression : Form → Bool
  | .trivia | .program | .expressionStatement | .block | .emptyStatement | .returnStatement
  | .declaration | .declarator | .forStatement | .exportStatement | .functionDeclaration
  | .classDeclaration | .classBody | .method => false
  | _ => true

/-- Grammar names of lists, clauses and words that stand beside expressions, and by which the syntax
around them is told apart. -/
def marks : List String :=
  ["arguments", "class_heritage", "computed_property_name", "template_substitution",
    "optional_chain", "default", "static", "async", "get", "set", "*", "++", "--"]

/-- Whether a grammar name is that of an expression. Syntax without a form of its own counts. -/
def isExpressionKind (kind : String) : Bool :=
  (ofKind kind).isExpression && !marks.contains kind && !kind.endsWith "_declaration"

def NoExpression (p : String → Bool) : Prop := ∀ kind, p kind = true → isExpressionKind kind = false

theorem noExpression_mark {mark : String} (h : mark ∈ marks) : NoExpression (· == mark) := by
  intro kind hk
  rw [eq_of_beq hk, isExpressionKind, List.contains_iff_mem.mpr h, Bool.not_true, Bool.and_false,
    Bool.false_and]

theorem noExpression_form {f : Form} (h : f.isExpression = false) :
    NoExpression (ofKind · == f) := by
  intro kind hk
  rw [isExpressionKind, eq_of_beq hk, h, Bool.false_and, Bool.false_and]

theorem noExpression_declaration : NoExpression (·.endsWith "_declaration") := by
  intro kind (hk : kind.endsWith "_declaration" = true)
  rw [isExpressionKind, hk, Bool.not_true, Bool.and_false]

theorem NoExpression.eq_false {p : String → Bool} (h : NoExpression p) {kind : String}
    (hk : isExpressionKind kind = true) : p kind = false := by
  cases hp : p kind with
  | false => rfl
  | true => exact absurd (hk.symm.trans (h kind hp)) (by decide)

theorem isExpressionKind_parenthesized :
    isExpressionKind "parenthesized_expression" = true := by decide +kernel

/-- Whether what a form holds under a field can be an expression: declarations hold none, and
neither a list of parameters nor the name that a property binds is one. -/
def holdsExpression (parent : Form) (field : Option String) : Bool :=
  match parent with
  | .declaration => false
  | .defaultedProperty => field != some "left"
  | .functionDeclaration | .functionExpression | .arrowFunction | .method =>
    field != some "parameters"
  | _ => true

/-- The same, where the operator of an assignment is no expression either. -/
def holdsOperand (parent : Form) (field : Option String) : Bool :=
  parent.holdsExpression field && !(parent == .assignment && field == some "operator")

end Form

namespace SyntaxTree

def isExpression (t : SyntaxTree) : Bool := t.named && Form.isExpressionKind t.kind

def isComment (t : SyntaxTree) : Bool := t.named && t.isTrivia && t.field.isNone

def under (t : SyntaxTree) (field : Option String) : SyntaxTree :=
  .mk t.kind t.named field t.extent t.children

/-- The first tree is the second in parentheses, which may hold comments besides. -/
structure Encloses (w t : SyntaxTree) : Prop where
  kind : w.kind = "parenthesized_expression"
  named : w.named = true
  field : w.field = t.field
  content : ∃ field, w.content = [t.under field]

/-- One step of respelling a tree that stands in a given form, or at the top. Parentheses are put
only around expressions that the form holds under a field where it may. -/
inductive Respells (mayHold : Form → Option String → Bool) :
    Option Form → SyntaxTree → SyntaxTree → Prop
  | comment {parent : Option Form} {k : String} {n : Bool} {f : Option String} {e : Extent}
      {before after : List SyntaxTree} {c : SyntaxTree} : before ≠ [] → c.isComment = true →
      Respells mayHold parent (.mk k n f e (before ++ after)) (.mk k n f e (before ++ c :: after))
  | parentheses {parent : Option Form} {t w : SyntaxTree} : t.isExpression = true →
      (∀ p ∈ parent, mayHold p t.field = true) → w.Encloses t → Respells mayHold parent t w
  | inside {parent : Option Form} {k : String} {n : Bool} {f : Option String} {e : Extent}
      {before after : List SyntaxTree} {a b : SyntaxTree} :
      Respells mayHold (some (.ofKind k)) a b →
      Respells mayHold parent (.mk k n f e (before ++ a :: after))
        (.mk k n f e (before ++ b :: after))

theorem beq_kind_of_isComment {c : SyntaxTree} (h : c.isComment = true) {name : String}
    (hname : Form.ofKind name ≠ .trivia) : (c.kind == name) = false := by
  rw [isComment, Bool.and_eq_true, Bool.and_eq_true] at h
  refine beq_eq_false_iff_ne.mpr fun he => hname ?_
  rw [← he]
  exact eq_of_beq h.1.2

/-! ### Children that were replaced, with comments between them -/

theorem cases_of_rel {R : SyntaxTree → SyntaxTree → Prop} {x y : Option SyntaxTree}
    (h : Option.Rel R x y) : (x = none ∧ y = none) ∨ ∃ a b, x = some a ∧ y = some b ∧ R a b := by
  cases h with
  | none => exact .inl ⟨rfl, rfl⟩
  | @some a b hab => exact .inr ⟨a, b, rfl, rfl, hab⟩

theorem head?_of_forall₂ {R : SyntaxTree → SyntaxTree → Prop} {as bs : List SyntaxTree}
    (h : List.Forall₂ R as bs) : Option.Rel R as.head? bs.head? := by
  cases h with
  | nil => exact .none
  | cons hab _ => exact .some hab

/-- The second list is the first with comments put in and trees replaced by related ones. -/
inductive Padded (R : SyntaxTree → SyntaxTree → Prop) : List SyntaxTree → List SyntaxTree → Prop
  | nil : Padded R [] []
  | cons {a b : SyntaxTree} {as bs : List SyntaxTree} : R a b → Padded R as bs →
      Padded R (a :: as) (b :: bs)
  | comment {c : SyntaxTree} {as bs : List SyntaxTree} : c.isComment = true → Padded R as bs →
      Padded R as (c :: bs)

namespace Padded

section
variable {R : SyntaxTree → SyntaxTree → Prop} (hrefl : ∀ a, R a a)
include hrefl

theorem refl (as : List SyntaxTree) : Padded R as as := by
  induction as with
  | nil => exact .nil
  | cons a rest ih => exact .cons (hrefl a) ih

theorem append_left {as bs : List SyntaxTree} (before : List SyntaxTree) (h : Padded R as bs) :
    Padded R (before ++ as) (before ++ bs) := by
  induction before with
  | nil => exact h
  | cons a rest ih => exact .cons (hrefl a) ih

end

section
variable {R : SyntaxTree → SyntaxTree → Prop} {as bs : List SyntaxTree} (h : Padded R as bs)
include h

/-- A test that comments fail picks related trees from both lists. -/
theorem filter {p : SyntaxTree → Bool} (hR : ∀ a b, R a b → p b = p a)
    (hc : ∀ c, c.isComment = true → p c = false) :
    List.Forall₂ R (as.filter p) (bs.filter p) := by
  induction h with
  | nil => exact .nil
  | @cons a b as bs hab _ ih =>
    rw [List.filter_cons, List.filter_cons, hR a b hab]
    split
    · exact .cons hab ih
    · exact ih
  | @comment c as bs hcomment _ ih =>
    rw [List.filter_cons, hc c hcomment]
    exact ih

theorem find? {p : SyntaxTree → Bool} (hR : ∀ a b, R a b → p b = p a)
    (hc : ∀ c, c.isComment = true → p c = false) : Option.Rel R (as.find? p) (bs.find? p) := by
  rw [← List.head?_filter, ← List.head?_filter]
  exact head?_of_forall₂ (h.filter hR hc)

theorem any {p : SyntaxTree → Bool} (hR : ∀ a b, R a b → p b = p a)
    (hc : ∀ c, c.isComment = true → p c = false) : bs.any p = as.any p := by
  induction h with
  | nil => rfl
  | @cons a b as bs hab _ ih => rw [List.any_cons, List.any_cons, hR a b hab, ih]
  | @comment c as bs hcomment _ ih => rw [List.any_cons, hc c hcomment, Bool.false_or, ih]

theorem findSome? {α : Type} {g : SyntaxTree → Option α} (hR : ∀ a b, R a b → g b = g a)
    (hc : ∀ c, c.isComment = true → g c = none) : bs.findSome? g = as.findSome? g := by
  induction h with
  | nil => rfl
  | @cons a b as bs hab _ ih => rw [List.findSome?_cons, List.findSome?_cons, hR a b hab, ih]
  | @comment c as bs hcomment _ ih => rw [List.findSome?_cons, hc c hcomment, ih]

end
end Padded

end SyntaxTree
end MutationLint
