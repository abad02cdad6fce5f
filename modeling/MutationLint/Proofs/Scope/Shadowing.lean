import MutationLint.Proofs.Node.Assembly
import MutationLint.Proofs.Scope.Derivation
import MutationLint.Scope.Lookup

/-! Which bindings hide outer ones. A name can be bound in many forms: by a pattern of any depth, as
a parameter, or as a function or class. Look-ups see only plain names and the properties that an
object pattern holds directly. A node that binds a name in other forms alone hides nothing: the
look-up goes on outside of it. -/

namespace MutationLint

/-- The role in which a pattern, or a property of one, holds the patterns inside it. -/
def Label.patternRole? : Label → Option Role
  | .objectPattern => some .properties
  | .property _ _ => some .value
  | .arrayPattern => some .elements
  | .assignmentPattern => some .left
  | .restElement => some .argument
  | _ => none

namespace Node

mutual

def patternNames : Node → List String
  | .mk (.identifier name) _ _ => [name]
  | .mk label _ cs => patternNamesIn label.patternRole? cs

def patternNamesIn (role? : Option Role) : List (Role × Node) → List String
  | [] => []
  | (role, n) :: rest =>
    (if role? = some role then n.patternNames else []) ++ patternNamesIn role? rest

end

/-- All the names a declarator binds: those that look-ups see, and any other in its pattern. -/
def declaredNames (declarator : Node) : List String :=
  declarator.boundNames ++ ((declarator.child? .id).map patternNames).getD []

end Node

namespace Site

/-- The node binds the name: in the pattern of a declarator it owns, as a parameter of a function
expression, or as a function or class declared among its statements. -/
def binds (s : Site) (name : String) : Bool :=
  (s.declarations.any fun d => d.declarators.any (·.node.declaredNames.contains name)) ||
    (s.label.isFunctionExpression &&
      (s.node.childrenIn .params).any (·.patternNames.contains name)) ||
    s.node.statements.any (·.declaresFunction name)

def binding? (start : Site) (name : String) : Option Site :=
  start.variableScope.find? (·.binds name)

def outer? (s : Site) : Option Site := if s.label.endsVariableScope then none else s.parent?

theorem binds_of_owns {s : Site} {name : String} (h : s.Owns name) : s.binds name = true := by
  obtain ⟨d, hd, hdeclares⟩ := h
  obtain ⟨a, ha⟩ := Option.isSome_iff_exists.mp hdeclares
  rw [declarator?] at ha
  have hbound : name ∈ a.node.boundNames := by simpa using List.find?_some ha
  have hnames : a.node.declaredNames.contains name = true :=
    List.contains_iff_mem.mpr (List.mem_append_left _ hbound)
  rw [binds, Bool.or_eq_true, Bool.or_eq_true]
  exact .inl <| .inl <| List.any_eq_true.mpr
    ⟨d, hd, List.any_eq_true.mpr ⟨a, List.mem_of_find?_eq_some ha, hnames⟩⟩

/-- The first node of the variable scope that passes a test is the site itself, or the first one
from the next node outward on. -/
theorem find?_variableScope (test : Site → Bool) (s : Site) :
    s.variableScope.find? test =
      if test s then some s else s.outer?.bind (·.variableScope.find? test) := by
  rw [variableScope, upTo_eq, List.find?_cons, outer?]
  cases test s with
  | true => rfl
  | false => cases s.label.endsVariableScope <;> cases s.parent? <;> rfl

theorem parent?_of_outer? {s p : Site} (h : s.outer? = some p) : s.parent? = some p := by
  rw [outer?] at h
  split at h
  · cases h
  · exact h

/-- To prove something of all sites, it may be assumed of the next one outward. -/
theorem outward_induction {P : Site → Prop} (step : ∀ s, (∀ p, s.outer? = some p → P p) → P s)
    (s : Site) : P s := by
  obtain ⟨n, path⟩ := s
  induction path generalizing n with
  | nil => exact step _ fun p hp => by cases parent?_of_outer? hp
  | cons step' path ih =>
    refine step _ fun p hp => ?_
    obtain rfl : (⟨step'.parent, path⟩ : Site) = p := Option.some.inj (parent?_of_outer? hp)
    exact ih _

theorem declaring?_of_not_owns_outer {s : Site} {name : String} (h : ¬ s.Owns name) :
    s.declaring? name = s.outer?.bind (·.declaring? name) := by
  rw [declaring?_of_not_owns h, outer?]
  cases s.label.endsVariableScope <;> rfl

theorem declaring?_of_binding? {s b : Site} {name : String} (h : s.binding? name = some b) :
    s.declaring? name = b.declaring? name ∧ s.top = b.top := by
  induction s using outward_induction with
  | step s ih =>
    rw [binding?, find?_variableScope] at h
    split at h
    · obtain rfl := Option.some.inj h
      exact ⟨rfl, rfl⟩
    · rename_i hbinds
      obtain ⟨p, hp, h⟩ := Option.bind_eq_some_iff.mp h
      obtain ⟨hdeclaring, htop⟩ := ih p hp h
      rw [declaring?_of_not_owns_outer (mt binds_of_owns hbinds), hp,
        ← top_of_parent? (parent?_of_outer? hp)]
      exact ⟨hdeclaring, htop⟩

/-- The look-ups see no more of where they start than what is declared around it. -/
theorem isFresh_congr {s p : Site} {name : String} (htop : s.top = p.top)
    (h : s.declaring? name = p.declaring? name) : s.isFresh name = p.isFresh name := by
  rw [isFresh, isFresh, depth, depth, htop, freshWithin, freshWithin, h]

theorem isRebindable_congr {s p : Site} {name : String}
    (h : s.declaring? name = p.declaring? name) : s.isRebindable name = p.isRebindable name := by
  rw [isRebindable, isRebindable, h]

end Site

open Site

/-- Where the innermost binding of a name is in no form that look-ups see, a look-up from inside it
answers as one from the next node outward does, and answers no where the variable scope ends. -/
theorem lookup_passes_over_binding {s b : Site} {target : Option Node} {name : String}
    (htarget : target.bind Node.base? = some name) (hb : s.binding? name = some b)
    (hform : ¬ b.Owns name) :
    (Target.of target (some s)).isFresh false = (Target.of target b.outer?).isFresh false ∧
      (Target.of target (some s)).isRebindable = (Target.of target b.outer?).isRebindable := by
  obtain ⟨hdeclaring, htop⟩ := declaring?_of_binding? hb
  rw [declaring?_of_not_owns_outer hform] at hdeclaring
  simp only [Target.isFresh, Target.isRebindable, Target.holds, Target.of, htarget, Bool.false_and,
    Bool.false_or]
  cases ho : b.outer? with
  | none =>
    rw [ho, Option.bind_none] at hdeclaring
    simp [isFresh, freshWithin, depth, isRebindable, hdeclaring]
  | some p =>
    rw [ho, Option.bind_some] at hdeclaring
    have htop : s.top = p.top := htop.trans (top_of_parent? (parent?_of_outer? ho)).symm
    exact ⟨isFresh_congr htop hdeclaring, isRebindable_congr hdeclaring⟩

/-- The tree of `let x = {}; { function x() {} x.a = 1; }`. -/
def hiddenLet : SyntaxTree :=
  .mk "program" true none ⟨0, 40, 0, 0⟩
    [.mk "lexical_declaration" true none ⟨0, 11, 0, 0⟩
      [.mk "let" false (some "kind") ⟨0, 3, 0, 0⟩ [],
        .mk "variable_declarator" true none ⟨4, 10, 0, 4⟩
          [.mk "identifier" true (some "name") ⟨4, 5, 0, 4⟩ [],
            .mk "=" false none ⟨6, 7, 0, 6⟩ [],
            .mk "object" true (some "value") ⟨8, 10, 0, 8⟩ []]],
      .mk "statement_block" true none ⟨12, 40, 0, 12⟩
        [.mk "function_declaration" true none ⟨14, 29, 0, 14⟩
          [.mk "function" false none ⟨14, 22, 0, 14⟩ [],
            .mk "identifier" true (some "name") ⟨23, 24, 0, 23⟩ [],
            .mk "formal_parameters" true (some "parameters") ⟨24, 26, 0, 24⟩ [],
            .mk "statement_block" true (some "body") ⟨27, 29, 0, 27⟩ []],
          .mk "expression_statement" true none ⟨30, 38, 0, 30⟩
            [.mk "assignment_expression" true none ⟨30, 37, 0, 30⟩
              [.mk "member_expression" true (some "left") ⟨30, 33, 0, 30⟩
                [.mk "identifier" true (some "object") ⟨30, 31, 0, 30⟩ [],
                  .mk "property_identifier" true (some "property") ⟨32, 33, 0, 32⟩ []],
                .mk "=" false none ⟨34, 35, 0, 34⟩ [],
                .mk "number" true (some "right") ⟨36, 37, 0, 36⟩ []]]]]

/-- The inner `x` is the function, and the block binds it so; looked up there, `x` is what the outer
`let` makes it. -/
theorem hiddenLet_lookups : ∃ program,
    hiddenLet.program (.ofText "let x = {}; { function x() {} x.a = 1; }") = .ok program ∧
    ∃ s ∈ walk program, ∃ b, s.binding? "x" = some b ∧ ¬ b.Owns "x" ∧
      (Target.of (some (.ofName "x")) (some s)).isFresh false = true ∧
      (Target.of (some (.ofName "x")) (some s)).isRebindable = true := by
  have hc : (hiddenLet.program
      (.ofText "let x = {}; { function x() {} x.a = 1; }")).toOption.map (fun program =>
        (walk program).any fun s =>
          (s.binding? "x").map (fun b => (b.declarationsOf "x").isEmpty) == some true &&
          (Target.of (some (.ofName "x")) (some s)).isFresh false &&
          (Target.of (some (.ofName "x")) (some s)).isRebindable) = some true := by decide +kernel
  obtain ⟨program, hp, h⟩ := Option.map_eq_some_iff.mp hc
  obtain ⟨s, hs, h⟩ := List.any_eq_true.mp h
  rw [Bool.and_eq_true, Bool.and_eq_true, beq_iff_eq] at h
  obtain ⟨⟨hb, hfresh⟩, hlet⟩ := h
  obtain ⟨b, hb, hempty⟩ := Option.map_eq_some_iff.mp hb
  have hform : ¬ b.Owns "x" := fun ho => by simp [isEmpty_declarationsOf.mpr ho] at hempty
  exact ⟨program, eq_ok_of_toOption hp, s, hs, b, hb, hform, hfresh, hlet⟩

theorem hiddenLet_passed_over : ∃ program,
    hiddenLet.program (.ofText "let x = {}; { function x() {} x.a = 1; }") = .ok program ∧
    ∃ s ∈ walk program, ∃ b, s.binding? "x" = some b ∧ ¬ b.Owns "x" ∧
      (Target.of (some (.ofName "x")) b.outer?).isFresh false = true ∧
      (Target.of (some (.ofName "x")) b.outer?).isRebindable = true := by
  obtain ⟨program, hp, s, hs, b, hb, hform, hfresh, hlet⟩ := hiddenLet_lookups
  have htarget : (some (Node.ofName "x")).bind Node.base? = some "x" := rfl
  obtain ⟨heq, heq'⟩ := lookup_passes_over_binding htarget hb hform
  exact ⟨program, hp, s, hs, b, hb, hform, heq ▸ hfresh, heq' ▸ hlet⟩

/-- It is not so that every innermost binding hides the outer ones. -/
theorem not_forall_binding_hides :
    ¬ ∀ (source : Source) (tree : SyntaxTree) (program : Node) (s b : Site) (target : Option Node)
      (name : String), tree.program source = .ok program → s ∈ walk program →
      target.bind Node.base? = some name → s.binding? name = some b → ¬ b.Owns name →
      (Target.of target (some s)).isFresh false = false ∧
        (Target.of target (some s)).isRebindable = false := by
  intro hides
  obtain ⟨program, hp, s, hs, b, hb, hform, hfresh, -⟩ := hiddenLet_lookups
  have hnot := (hides _ hiddenLet program s b (some (.ofName "x")) "x" hp hs rfl hb hform).1
  exact Bool.false_ne_true (hnot.symm.trans hfresh)

end MutationLint
