import MutationLint.Proofs.Node.Roles
import MutationLint.Proofs.Scope.Replacement

/-! The declarations of a scope form a bag. Putting the statements of a program or block in another
order, or taking a variable declaration apart into one for each declarator, changes no look-up from
any other place in the program. -/

namespace MutationLint

open List (Forall₂)

namespace Node

/-- A declaration of one declarator, of the kind of another declaration. -/
structure Piece (d declarator piece : Node) : Prop where
  label : piece.label = d.label
  children : piece.children = [(.declarations, declarator)]

def BindsOnce (d : Node) : Prop :=
  (d.childrenIn .declarations).Pairwise fun a b => a.boundNames.Disjoint b.boundNames

/-- The same statements in another order, with declarations taken apart. -/
inductive Regroups : List Node → List Node → Prop
  | reorder {xs ys : List Node} : xs.Perm ys → Regroups xs ys
  | split {front back pieces : List Node} {d : Node} : d.label.isVariableDeclaration = true →
      d.BindsOnce → Forall₂ (Piece d) (d.childrenIn .declarations) pieces →
      Regroups (front ++ d :: back) (front ++ (pieces ++ back))
  | trans {xs ys zs : List Node} : Regroups xs ys → Regroups ys zs → Regroups xs zs

/-! ### What the statements show -/

theorem not_declaresFunction {d : Node} (h : d.label.isVariableDeclaration = true) (name : String) :
    d.declaresFunction name = false := by
  unfold declaresFunction
  cases hl : d.label <;> simp_all [Label.isVariableDeclaration, Label.isExport, Label.isDeclaration]

theorem toList_find? {α : Type} {p : α → Bool} {xs : List α}
    (h : xs.Pairwise fun a b => ¬ (p a = true ∧ p b = true)) :
    (xs.find? p).toList = xs.filter p := by
  induction xs with
  | nil => rfl
  | cons a rest ih =>
    obtain ⟨ha, hrest⟩ := List.pairwise_cons.mp h
    rw [List.find?_cons, List.filter_cons]
    by_cases hp : p a = true
    · have hnone : rest.filter p = [] :=
        List.filter_eq_nil_iff.mpr fun b hb hpb => ha b hb ⟨hp, hpb⟩
      simp [hp, hnone]
    · simp [hp, ih hrest]

section
variable {d : Node} {pieces : List Node} (hd : d.label.isVariableDeclaration = true)
include hd

theorem Piece.introduction? {a piece : Node} (h : Piece d a piece) (name : String) :
    piece.introduction? name =
      if a.boundNames.contains name then some (d.declarationKind?, a.surface) else none := by
  have hkind : piece.declarationKind? = d.declarationKind? := by
    unfold declarationKind?
    rw [h.label]
  have hdeclarators : piece.childrenIn .declarations = [a] := by simp [childrenIn, h.children]
  unfold Node.introduction? declarator?
  rw [h.label, if_pos hd, hdeclarators, hkind, List.find?_cons]
  cases a.boundNames.contains name <;> rfl

/-- The pieces show what the declaration does, for each name the declarator that binds it. -/
theorem filterMap_introduction?_pieces (honce : d.BindsOnce)
    (h : Forall₂ (Piece d) (d.childrenIn .declarations) pieces) (name : String) :
    pieces.filterMap (·.introduction? name) = (d.introduction? name).toList := by
  have hpieces {as pieces : List Node} (h : Forall₂ (Piece d) as pieces) :
      pieces.filterMap (·.introduction? name) =
        (as.filter (·.boundNames.contains name)).map fun a => (d.declarationKind?, a.surface) := by
    induction h with
    | nil => rfl
    | cons hpiece _ ih =>
      rw [List.filterMap_cons, hpiece.introduction? hd, List.filter_cons, ih]
      split_ifs <;> rfl
  have hone : (d.childrenIn .declarations).Pairwise fun a b =>
      ¬ (a.boundNames.contains name = true ∧ b.boundNames.contains name = true) := by
    refine honce.imp fun hdisjoint hboth => ?_
    exact hdisjoint (List.contains_iff_mem.mp hboth.1) (List.contains_iff_mem.mp hboth.2)
  rw [hpieces h, ← toList_find? hone, Node.introduction?, declarator?, if_pos hd]
  cases (d.childrenIn .declarations).find? (·.boundNames.contains name) <;> rfl

theorem any_declaresFunction_pieces {as : List Node} (h : Forall₂ (Piece d) as pieces)
    (name : String) : pieces.any (·.declaresFunction name) = false := by
  induction h with
  | nil => rfl
  | cons hpiece _ ih =>
    rw [List.any_cons, ih, not_declaresFunction (hpiece.label ▸ hd)]
    rfl

end

namespace Regroups

variable {xs ys : List Node} (h : Regroups xs ys) (name : String)
include h

theorem introductions : (xs.filterMap (·.introduction? name)).Perm
    (ys.filterMap (·.introduction? name)) := by
  induction h with
  | reorder h => exact h.filterMap _
  | split hd honce hpieces =>
    rw [List.filterMap_append, List.filterMap_append, List.filterMap_append, List.filterMap_cons,
      filterMap_introduction?_pieces hd honce hpieces]
    cases Node.introduction? _ name <;> exact List.Perm.refl _
  | trans _ _ ih ih' => exact ih.trans ih'

theorem functions : xs.any (·.declaresFunction name) = ys.any (·.declaresFunction name) := by
  induction h with
  | reorder h => exact h.any_eq
  | split hd _ hpieces =>
    simp [not_declaresFunction hd, any_declaresFunction_pieces hd hpieces]
  | trans _ _ ih ih' => exact ih.trans ih'

end Regroups

/-! ### The owner of the statements -/

def HoldsStatements (n : Node) : Prop :=
  n.label.isStatementList = true ∧ n.children = n.statements.map (Role.body, ·)

def withStatements (n : Node) (ys : List Node) : Node :=
  .mk n.label n.extent (ys.map (Role.body, ·))

section
variable {n : Node} {ys : List Node}

theorem statements_withStatements (h : n.label.isStatementList = true) :
    (n.withStatements ys).statements = ys := by
  simp [statements, withStatements, h, childrenIn, List.filterMap_map]

theorem introductions_of_holdsStatements (h : n.HoldsStatements) (name : String) :
    n.introductions name = n.statements.filterMap (·.introduction? name) := by
  have howns : n.label.ownsIn .body = true := by simp [Label.ownsIn, h.1]
  unfold introductions
  rw [h.2, List.filterMap_map]
  simp [howns]

theorem holdsStatements_withStatements (h : n.label.isStatementList = true) :
    (n.withStatements ys).HoldsStatements :=
  ⟨h, by rw [statements_withStatements h]; rfl⟩

theorem alike_withStatements (h : n.HoldsStatements) (hr : Regroups n.statements ys) :
    n.Alike (n.withStatements ys) := by
  have h' : (n.withStatements ys).HoldsStatements := holdsStatements_withStatements h.1
  refine ⟨rfl, fun name => ?_, fun name => ?_⟩
  · rw [introductions_of_holdsStatements h, introductions_of_holdsStatements h',
      statements_withStatements h.1]
    exact hr.introductions name
  · rw [statements_withStatements h.1]
    exact hr.functions name

theorem surface_withStatements (h : n.HoldsStatements) :
    n.surface = (n.withStatements ys).surface := by
  obtain ⟨l, e, cs⟩ := n
  have hcs : cs = (mk l e cs).statements.map (Role.body, ·) := h.2
  have hbody (xs : List Node) : (xs.map (Role.body, ·)).filter (·.1.isRead) = [] := by
    simp [List.filter_eq_nil_iff, Role.isRead]
  simp only [withStatements, surface, surfaceAll_eq, label_mk, hbody]
  rw [hcs, hbody]

end

end Node

/-! ### Places that correspond -/

namespace Site

/-- The places of two programs that correspond, given the statement lists in which these differ. -/
inductive Counterpart (o o' : Site) : Site → Site → Prop
  | owner : Counterpart o o' o o'
  | parent {s s' p p' : Site} : Counterpart o o' s s' → s.parent? = some p →
      s'.parent? = some p' → Counterpart o o' p p'
  | child {p p' c c' : Site} : Counterpart o o' p p' → c ∈ p.children → c' ∈ p'.children →
      c'.role? = c.role? → c'.node = c.node → Counterpart o o' c c'

namespace Counterpart

variable {o o' s s' : Site}

theorem likewise (h : Counterpart o o' s s') (ho : Likewise o o') : Likewise s s' := by
  induction h with
  | owner => exact ho
  | parent _ hp hp' ih =>
    obtain ⟨q, hq, hlike⟩ := ih.parent? hp
    cases hq.symm.trans hp'
    exact hlike
  | child _ hc hc' _ hnode ih =>
    exact ih.of_parents (parent?_of_mem_children hc) (parent?_of_mem_children hc')
      (hnode ▸ Node.Alike.refl _)

theorem mem_walk {P P' : Node} (h : Counterpart o o' s s') (ho : o ∈ walk P)
    (ho' : o' ∈ walk P') : s ∈ walk P ∧ s' ∈ walk P' := by
  induction h with
  | owner => exact ⟨ho, ho'⟩
  | parent _ hp hp' ih => exact ⟨mem_walk_of_parent? ih.1 hp, mem_walk_of_parent? ih.2 hp'⟩
  | child _ hc hc' _ _ ih =>
    exact ⟨mem_walk_of_mem_children ih.1 hc, mem_walk_of_mem_children ih.2 hc'⟩

end Counterpart

/-! ### Every other place has a counterpart -/

section
variable {P : Node} {o : Site} {n : Node}

/-- What has to be put in the place of a node above the owner, so that the owner becomes another. -/
inductive Carries (o : Site) (n : Node) : Site → Node → Prop
  | owner : Carries o n o n
  | above {p : Site} {i : Nat} {role : Role} {m k : Node} :
      p.node.children[i]? = some (role, m) → Carries o n (p.descend i role m) k →
      Carries o n p (Step.put ⟨p.node, role, i⟩ k)

theorem Carries.under {p : Site} {k : Node} (h : Carries o n p k) : Under p o := by
  induction h with
  | owner => exact .refl
  | above hi _ ih => exact (Under.child .refl (mem_children.mpr ⟨_, _, _, hi, rfl⟩)).trans ih

theorem Carries.counterpart {p : Site} {k : Node} (h : Carries o n p k) :
    Counterpart o (o.replace n) p (p.replace k) := by
  induction h with
  | owner => exact .owner
  | above _ _ ih => exact .parent ih rfl rfl

theorem exists_carries {p : Site} (h : Under p o) : ∃ k, Carries o n p k := by
  have hup {s : Site} (h : Under p s) : ∀ k, Carries o n s k → ∃ k, Carries o n p k := by
    induction h with
    | refl => exact fun k hk => ⟨k, hk⟩
    | child _ hc ih =>
      intro k hk
      obtain ⟨i, role, m, hi, rfl⟩ := mem_children.mp hc
      exact ih _ (.above hi hk)
  exact hup h n .owner

def Spared (o : Site) (ys : List Node) (s : Site) : Prop :=
  ∀ c ∈ o.children, Under c s → c.node ∈ ys

theorem Spared.of_child {ys : List Node} {p c : Site} (h : Spared o ys c) (hc : c ∈ p.children) :
    Spared o ys p :=
  fun d hd hu => h d hd (.child hu hc)

theorem exists_counterpart (ho : o ∈ walk P) (hstatements : o.node.HoldsStatements)
    {ys : List Node} {s : Site} (hs : s ∈ walk P) (hspared : Spared o ys s) :
    ∃ s', Counterpart o (o.replace (o.node.withStatements ys)) s s' ∧
      (¬ Under s o → s'.node = s.node) := by
  rw [mem_walk] at hs
  induction hs with
  | refl =>
    obtain ⟨k, hk⟩ := exists_carries (n := o.node.withStatements ys) (mem_walk.mp ho)
    exact ⟨_, hk.counterpart, fun h => absurd hk.under h⟩
  | @child p c hp hc ih =>
    by_cases hu : Under c o
    · obtain ⟨k, hk⟩ := exists_carries (n := o.node.withStatements ys) hu
      exact ⟨_, hk.counterpart, fun h => absurd hu h⟩
    · obtain ⟨i, role, m, hi, rfl⟩ := mem_children.mp hc
      -- below a node that is kept as it is, a child is where it was
      have hchild {p' : Site} (hp' : Counterpart o (o.replace (o.node.withStatements ys)) p p')
          {j : Nat} (hj : p'.node.children[j]? = some (role, m)) :
          ∃ s', Counterpart o (o.replace (o.node.withStatements ys)) (p.descend i role m) s' ∧
            (¬ Under (p.descend i role m) o → s'.node = m) :=
        ⟨p'.descend j role m, .child hp' hc (mem_children.mpr ⟨j, role, m, hj, rfl⟩) rfl rfl,
          fun _ => rfl⟩
      by_cases hup : Under p o
      · obtain ⟨k, hk⟩ := exists_carries (n := o.node.withStatements ys) hup
        cases hk with
        | owner =>
          have hrole : role = .body := by
            have hmem := List.mem_of_getElem? hi
            rw [hstatements.2, List.mem_map] at hmem
            obtain ⟨x, -, hx⟩ := hmem
            exact (Prod.mk.inj hx).1.symm
          have hmem : m ∈ ys := hspared _ hc .refl
          obtain ⟨j, hj⟩ := List.mem_iff_getElem?.mp hmem
          refine hchild .owner (j := j) ?_
          simp [replace, Node.withStatements, hj, hrole]
        | @above _ i' role' m' k' hi' hk =>
          have hne : i' ≠ i := by
            rintro rfl
            cases hi.symm.trans hi'
            exact hu hk.under
          refine hchild (Carries.above hi' hk).counterpart (j := i) ?_
          simp [replace, Step.put, hne, hi]
      · obtain ⟨p', hp', hnode⟩ := ih (hspared.of_child hc)
        exact hchild hp' (hnode hup ▸ hi)

end

end Site

/-- In a built program, programs and blocks hold statements only. -/
theorem holdsStatements_of_mem_walk {source : Source} {tree : SyntaxTree} {program : Node}
    (built : tree.program source = .ok program) {o : Site} (ho : o ∈ Site.walk program)
    (hl : o.label.isStatementList = true) : o.node.HoldsStatements := by
  have hl : o.node.label.isStatementList = true := hl
  have hroles : ∀ c ∈ o.node.children, c.1 = .body := by
    intro c hc
    have hknown := (SyntaxTree.holds_of_mem_walk built ho).known c.1 (List.mem_map_of_mem hc)
    simp only [Site.label] at hknown
    cases hlabel : o.node.label <;>
      simp_all [Label.isStatementList, Label.singleRoles, Label.listRole?]
  have hsame : o.node.children.filterMap (fun c =>
      (if c.1 = .body then some c.2 else none).map (Role.body, ·)) = o.node.children := by
    rw [List.filterMap_congr (g := some), List.filterMap_some]
    intro c hc
    simp [← hroles c hc]
  refine ⟨hl, ?_⟩
  rw [Node.statements, if_pos hl, Node.childrenIn, List.map_filterMap, hsame]

open Site

/-- Look-ups do not see the order of the statements in a program or block, nor how its declarations
are grouped. In every built program, when the statements of one of these are regrouped, every place
outside of the statements taken apart has its counterpart, and at every counterpart all look-ups of
all targets answer as before. -/
theorem regrouped_lookups {source : Source} {tree : SyntaxTree} {program : Node}
    (built : tree.program source = .ok program) {o : Site} (ho : o ∈ walk program)
    (hl : o.label.isStatementList = true) {ys : List Node}
    (hregroup : Node.Regroups o.node.statements ys) :
    (∀ s ∈ walk program, Spared o ys s →
      ∃ s', Counterpart o (o.replace (o.node.withStatements ys)) s s') ∧
    ∀ s s', Counterpart o (o.replace (o.node.withStatements ys)) s s' →
      s' ∈ walk (o.programWith (o.node.withStatements ys)) ∧ ∀ target : Option Node,
        (Target.of target (some s)).isRebindable = (Target.of target (some s')).isRebindable ∧
        (Target.of target (some s)).isFunction = (Target.of target (some s')).isFunction ∧
        ∀ functions, (Target.of target (some s)).isFresh functions =
          (Target.of target (some s')).isFresh functions := by
  have hstatements := holdsStatements_of_mem_walk built ho hl
  have hlike : Likewise o (o.replace (o.node.withStatements ys)) :=
    likewise_replace ho (Node.alike_withStatements hstatements hregroup)
      (Node.surface_withStatements hstatements)
  constructor
  · intro s hs hspared
    obtain ⟨s', hs', -⟩ := exists_counterpart ho hstatements hs hspared
    exact ⟨s', hs'⟩
  · intro s s' h
    obtain ⟨hs, hs'⟩ := h.mem_walk ho (replace_mem_walk ho _)
    exact ⟨hs', (h.likewise hlike).target hs hs'⟩

namespace SharedLet

/-- The tree of `let a = {}, b = a; b.c = d`. -/
def tree : SyntaxTree :=
  .mk "program" true none ⟨0, 26, 0, 0⟩
    [.mk "lexical_declaration" true none ⟨0, 18, 0, 0⟩
      [.mk "let" false (some "kind") ⟨0, 3, 0, 0⟩ [],
        .mk "variable_declarator" true none ⟨4, 10, 0, 4⟩
          [.mk "identifier" true (some "name") ⟨4, 5, 0, 4⟩ [],
            .mk "object" true (some "value") ⟨8, 10, 0, 8⟩ []],
        .mk "variable_declarator" true none ⟨12, 17, 0, 12⟩
          [.mk "identifier" true (some "name") ⟨12, 13, 0, 12⟩ [],
            .mk "identifier" true (some "value") ⟨16, 17, 0, 16⟩ []]],
      .mk "expression_statement" true none ⟨19, 26, 0, 19⟩
        [.mk "assignment_expression" true none ⟨19, 26, 0, 19⟩
          [.mk "member_expression" true (some "left") ⟨19, 22, 0, 19⟩
            [.mk "identifier" true (some "object") ⟨19, 20, 0, 19⟩ [],
              .mk "property_identifier" true (some "property") ⟨21, 22, 0, 21⟩ []],
            .mk "identifier" true (some "right") ⟨25, 26, 0, 25⟩ []]]]

def declareA : Node :=
  .mk .variableDeclarator ⟨4, 10, 0, 4⟩
    [(.id, .mk (.identifier "a") ⟨4, 5, 0, 4⟩ []), (.init, .mk .objectExpression ⟨8, 10, 0, 8⟩ [])]

def declareB : Node :=
  .mk .variableDeclarator ⟨12, 17, 0, 12⟩
    [(.id, .mk (.identifier "b") ⟨12, 13, 0, 12⟩ []),
      (.init, .mk (.identifier "a") ⟨16, 17, 0, 16⟩ [])]

def letOf (declarators : List Node) : Node :=
  .mk (.variableDeclaration "let") ⟨0, 18, 0, 0⟩ (declarators.map (Role.declarations, ·))

def write : Node :=
  .mk .expressionStatement ⟨19, 26, 0, 19⟩
    [(.expression, .mk (.assignment "=") ⟨19, 26, 0, 19⟩
      [(.left, .mk (.member false false) ⟨19, 22, 0, 19⟩
          [(.object, .mk (.identifier "b") ⟨19, 20, 0, 19⟩ []),
            (.property, .mk (.identifier "c") ⟨21, 22, 0, 21⟩ [])]),
        (.right, .mk (.identifier "d") ⟨25, 26, 0, 25⟩ [])])]

def program : Node :=
  .mk .program ⟨0, 26, 0, 0⟩ [(.body, letOf [declareA, declareB]), (.body, write)]

/-- The declaration taken apart, and all of it turned round. -/
def regrouped : List Node := [write, letOf [declareB], letOf [declareA]]

theorem regroups : Node.Regroups [letOf [declareA, declareB], write] regrouped := by
  have honce : (letOf [declareA, declareB]).BindsOnce := by
    refine List.pairwise_pair.mpr ?_
    intro name ha hb
    simp_all [declareA, declareB, Node.boundNames, Node.child?, Node.isObjectPattern,
      Node.identifier?]
  have hsplit : Node.Regroups [letOf [declareA, declareB], write]
      [letOf [declareA], letOf [declareB], write] := by
    have hpieces : Forall₂ (Node.Piece (letOf [declareA, declareB])) [declareA, declareB]
        [letOf [declareA], letOf [declareB]] := .cons ⟨rfl, rfl⟩ (.cons ⟨rfl, rfl⟩ .nil)
    exact @Node.Regroups.split [] [write] _ _ rfl honce hpieces
  exact .trans hsplit (.reorder (List.reverse_perm regrouped))

end SharedLet

open SharedLet in
/-- Where the statement stands that writes to `b`, `b` is fresh before and after. -/
theorem sharedLet_regrouped :
    tree.program (.ofText "let a = {}, b = a; b.c = d") = .ok program ∧
    Node.Regroups (root program).node.statements regrouped ∧
    Spared (root program) regrouped ((root program).descend 1 .body write) ∧
    (Target.of (some (.ofName "b")) (some ((root program).descend 1 .body write))).isFresh false =
      true ∧
    ∃ s', Counterpart (root program)
        ((root program).replace (program.withStatements regrouped))
        ((root program).descend 1 .body write) s' ∧
      (Target.of (some (.ofName "b")) (some s')).isFresh false = true := by
  have hbuilt : tree.program (.ofText "let a = {}, b = a; b.c = d") = .ok program := by rfl
  have hsite : (root program).descend 1 .body write ∈ walk program :=
    mem_walk.mpr (.child .refl (mem_children.mpr ⟨1, _, _, rfl, rfl⟩))
  have hspared : Spared (root program) regrouped ((root program).descend 1 .body write) := by
    intro c hc hu
    obtain ⟨i, role, n, hi, rfl⟩ := mem_children.mp hc
    obtain rfl : i = 1 := (List.cons.inj ((suffix_of_under hu).eq_of_length rfl)).1
    cases hi
    simp [regrouped, descend]
  have hfresh : (Target.of (some (.ofName "b"))
      (some ((root program).descend 1 .body write))).isFresh false = true := by decide +kernel
  obtain ⟨hexists, hsame⟩ := regrouped_lookups hbuilt (root_mem_walk program) rfl regroups
  obtain ⟨s', hs'⟩ := hexists _ hsite hspared
  exact ⟨hbuilt, regroups, hspared, hfresh, s', hs',
    ((hsame _ s' hs').2 (some (.ofName "b"))).2.2 false ▸ hfresh⟩

end MutationLint
