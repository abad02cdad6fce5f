import MutationLint.Proofs.Exemption.Callbacks
import MutationLint.Proofs.Node.Casts
import MutationLint.Proofs.Scope.Replacement

/-! Writes through type casts. The verdict on a write looks through one cast, right above a bare
name at the left end of the target. All else it tests, whether the target is a bare name itself, is
an export or a prototype or is named by an exception, it tests on the target as it stands. So a cast
can be dropped without a change only from the left end of a member access, and exemptions apart. -/

namespace MutationLint

def Label.targetRole : Label → Role
  | .update _ _ => .argument
  | _ => .left

theorem Label.isRead_targetRole (l : Label) : l.targetRole.isRead = false := by
  unfold targetRole
  split <;> rfl

namespace Site

def retarget (s : Site) (target : Node) : Site :=
  s.replace (s.node.withChild s.label.targetRole target)

theorem label_retarget {s : Site} {target : Node} : (s.retarget target).label = s.label := rfl

/-! ### What another target leaves as it is -/

theorem bind_calleeName?_congr {n m : Node} (h : n.surface = m.surface) :
    (n.child? .callee).bind Node.calleeName? = (m.child? .callee).bind Node.calleeName? := by
  have hmap : (n.child? .callee).map Node.surface = (m.child? .callee).map Node.surface := by
    rw [← Node.child?_surface n rfl, h, Node.child?_surface m rfl]
  have hbind (callee? : Option Node) : (callee?.map Node.surface).bind Node.calleeName? =
      callee?.bind Node.calleeName? := by
    cases callee? with
    | none => rfl
    | some callee => exact Node.view_surface.calleeName? callee
  rw [← hbind, hmap, hbind]

/-- A node that is put in the place of one with the same surface is in the same callbacks. -/
theorem inReducer_replace {P : Node} {s : Site} (h : s ∈ walk P) {n : Node}
    (hlabel : n.label = s.label) (hsurface : s.node.surface = n.surface) (reducers : List Text) :
    (s.replace n).inReducer reducers = s.inReducer reducers := by
  rw [mem_walk] at h
  induction h generalizing n with
  | refl =>
    have hnone (m : Node) : (root m).inReducer reducers = false := by
      have hblock : (root m).block?.bind parent? = none := by
        rw [block?_eq]
        split_ifs <;> rfl
      simp [inReducer, hblock]
    rw [replace_root, hnone, hnone]
  | @child p c _ hc ih =>
    obtain ⟨i, role, m, hi, rfl⟩ := mem_children.mp hc
    have hput : p.node.surface = (Step.put ⟨p.node, role, i⟩ n).surface :=
      Node.surface_congr rfl (surfaces_put hi hsurface)
    have hparent : (p.descend i role m).parent? = some p := rfl
    have hparent' : ((p.descend i role m).replace n).parent? =
        some (p.replace (Step.put ⟨p.node, role, i⟩ n)) := rfl
    have hlabel' : ((p.descend i role m).replace n).label = (p.descend i role m).label := hlabel
    by_cases hb : (p.descend i role m).label.endsBlock = true
    · -- the enclosing call is the parent, whose callee is the same
      have hcallee := bind_calleeName?_congr hput
      unfold inReducer
      rw [block?_eq, block?_eq, hlabel', if_pos hb, if_pos hb, Option.bind_some, Option.bind_some,
        hparent, hparent']
      simp only [replace, ← hcallee]
      rfl
    · -- the enclosing block is that of the parent
      have hblock : (p.descend i role m).block? = p.block? := by
        rw [block?_eq, if_neg hb, hparent, Option.bind_some]
      have hblock' : ((p.descend i role m).replace n).block? =
          (p.replace (Step.put ⟨p.node, role, i⟩ n)).block? := by
        rw [block?_eq, hlabel', if_neg hb, hparent', Option.bind_some]
      rw [inReducer_congr hblock, inReducer_congr hblock']
      exact ih rfl hput

theorem parentInReducer_eq {s : Site} (h : s.label.endsBlock = false) (reducers : List Text) :
    s.parentInReducer reducers = s.inReducer reducers := by
  unfold parentInReducer
  cases hp : s.parent? with
  | none => simp [inReducer, block?_eq s, h, hp]
  | some p =>
    have hblock : s.block? = p.block? := by simp [block?_eq s, h, hp]
    exact (inReducer_congr hblock).symm

section
variable {P : Node} {s start : Site} {target : Node}

theorem Writes.label (h : Writes s target start) :
    (∃ operator, s.label = .assignment operator) ∨
      ∃ operator leading, s.label = .update operator leading := by
  cases h with
  | assignment hl _ _ => exact .inl ⟨_, hl⟩
  | update hl _ => exact .inr ⟨_, _, hl⟩

theorem Writes.likewise_retarget (h : Writes s target start) (hs : s ∈ walk P) (target' : Node) :
    Likewise s (s.retarget target') := by
  refine likewise_replace hs ?_ (Node.surface_withChild s.label.isRead_targetRole).symm
  have hl : s.node.label.isStatementList = false ∧ s.node.label ≠ .forStatement := by
    rcases h.label with ⟨operator, hl⟩ | ⟨operator, leading, hl⟩ <;>
      simp [show s.node.label = _ from hl, Label.isStatementList]
  exact .of_inert rfl hl.1 hl.2

theorem Writes.retarget (h : Writes s target start) (hs : s ∈ walk P) (target' : Node) :
    ∃ start', Writes (s.retarget target') target' start' ∧ Likewise start start' ∧
      start ∈ walk P ∧ start' ∈ walk (s.retarget target').top := by
  have hmem : s.retarget target' ∈ walk (s.retarget target').top := replace_mem_walk hs _
  have hlike := h.likewise_retarget hs target'
  cases h with
  | assignment hl ht hp =>
    obtain ⟨start', hp', hlike'⟩ := hlike.parent? hp
    refine ⟨start', .assignment (label_retarget.trans hl) ?_ hp', hlike', mem_walk_of_parent? hs hp,
      mem_walk_of_parent? hmem hp'⟩
    have hrole : s.label.targetRole = .left := by rw [hl]; rfl
    simp only [left?, Site.retarget, replace, hrole]
    exact Node.child?_withChild_self ht
  | update hl ht =>
    refine ⟨s.retarget target', .update (label_retarget.trans hl) ?_, hlike, hs, hmem⟩
    have hrole : s.label.targetRole = .argument := by rw [hl]; rfl
    simp only [Site.retarget, replace, hrole]
    exact Node.child?_withChild_self ht

theorem Writes.parentInReducer_retarget (h : Writes s target start) (hs : s ∈ walk P)
    (target' : Node) (reducers : List Text) :
    (s.retarget target').parentInReducer reducers = s.parentInReducer reducers := by
  have hl : s.label.endsBlock = false := by
    rcases h.label with ⟨operator, hl⟩ | ⟨operator, leading, hl⟩ <;> rw [hl] <;> rfl
  have hl' : (s.retarget target').label.endsBlock = false := hl
  have hsurface : s.node.surface = (s.node.withChild s.label.targetRole target').surface :=
    (Node.surface_withChild s.label.isRead_targetRole).symm
  rw [parentInReducer_eq hl, parentInReducer_eq hl']
  exact inReducer_replace hs label_retarget hsurface reducers

/-! ### Writes -/

theorem Writes.left?_eq (h : Writes s target start) {operator : String}
    (hl : s.label = .assignment operator) : s.left? = some target := by
  cases h with
  | assignment _ ht _ => exact ht
  | update hl' _ => cases hl.symm.trans hl'

/-- A write is a violation when its target is not local and, for an assignment, not exempt. -/
theorem Writes.violates_iff (h : Writes s target start) (o : Options) :
    Rule.noMutation.Violates o s ↔ Rule.isLocal o (some target) (some start) = false ∧
      ∀ operator, s.label = .assignment operator → s.isExempt o = false := by
  cases h with
  | assignment hl ht hp => simp [Rule.Violates, hl, ht, hp, and_comm]
  | update hl ht => simp [Rule.Violates, hl, ht]

variable {cast : Node} {o : Options}

/-- A target built on a cast is local when the name right below the cast is a fresh local. It need
not be rebindable, even when the cast is the whole target. -/
theorem isLocal_of_onCast (h : Node.OnCast cast target) :
    Rule.isLocal o (some target) (some start) =
      Target.isFresh ⟨(cast.child? .expression).bind Node.identifier?, some start⟩
        o.functionProps := by
  simp [Rule.isLocal, h.identifier?, Target.of, h.base?]

theorem Writes.not_special (h : Writes s target start) (hcast : Node.OnCast cast target)
    {operator : String} (hl : s.label = .assignment operator) :
    s.writesExports = false ∧ s.writesPrototype = false := by
  simp [writesExports, writesPrototype, h.left?_eq hl, hcast.not_reachesExports,
    hcast.not_isPrototype]

theorem category_of_not_special {operator : String} (hl : s.label = .assignment operator)
    (hexports : s.writesExports = false) (hprototype : s.writesPrototype = false) :
    s.category = .reassignment := by
  simp [category, hl, errorType, hexports, hprototype, ErrorType.category]

theorem Writes.isExempt_retarget (h : Writes s target start) (hs : s ∈ walk P)
    (hcast : Node.OnCast cast target) {target' : Node} (hkeeps : Node.Keeps target target')
    {operator : String} (hl : s.label = .assignment operator) (hexempt : s.isExempt o = true) :
    (s.retarget target').isExempt o = true := by
  obtain ⟨start', hwrites', -⟩ := h.retarget hs target'
  have hl' : (s.retarget target').label = .assignment operator := hl
  obtain ⟨hexports, hprototype⟩ := h.not_special hcast hl
  simp only [isExempt, hexports, hprototype, Bool.and_false, Bool.false_or, Bool.or_eq_true]
    at hexempt
  simp only [isExempt, Bool.or_eq_true]
  rcases hexempt with hexception | hreducer
  · refine .inl (.inr ?_)
    simp only [writesException, h.left?_eq hl, hwrites'.left?_eq hl', Option.map_some,
      Option.getD_some] at hexception ⊢
    exact hkeeps.exceptions o.patterns hexception
  · exact .inr ((h.parentInReducer_retarget hs target' o.reducers).trans hreducer)

theorem isLocal_of_keeps {start' : Site} {P' : Node} {target' : Node}
    (hcast : Node.OnCast cast target) (hmember : target.isMember = true)
    (hkeeps : Node.Keeps target target') (hlike : Likewise start start') (hs : start ∈ walk P)
    (hs' : start' ∈ walk P') :
    Rule.isLocal o (some target') (some start') = Rule.isLocal o (some target) (some start) := by
  have hnone : target'.identifier? = none := by
    have := hcast.identifier?
    simpa only [Node.identifier?, (hkeeps.member hmember).1] using this
  have hof : Target.of (some target') (some start') = Target.of (some target) (some start') := by
    simp [Target.of, hkeeps.base?]
  have hfresh := ((hlike.target hs hs' (some target)).2.2 o.functionProps).symm
  simpa [Rule.isLocal, hnone, hcast.identifier?, hof] using hfresh

end

end Site

open Site

/-- Writes through casts. A write whose target is, or is built on, a cast counts by what stands
right below the first cast on its object chain: it is a violation unless a bare name stands there
that is a fresh local, or an exception or a callback lets it pass; and it counts as a plain
reassignment. Where the target is a member access and a bare name stands there, the cast may be
dropped: the write is then a violation as before, unless it becomes an exempt one, and of the same
category, unless it becomes one to exports or to a prototype. -/
theorem cast_write_verdicts {program : Node} {s start : Site} {target : Node}
    (hs : s ∈ walk program) (hwrites : Writes s target start)
    (hcast : target.leftMost.label = .cast) (o : Options) :
    (Rule.noMutation.Violates o s ↔
      Target.isFresh ⟨(target.leftMost.child? .expression).bind Node.identifier?, some start⟩
        o.functionProps = false ∧
      ∀ operator, s.label = .assignment operator →
        s.writesException o.patterns = false ∧ s.parentInReducer o.reducers = false) ∧
    (∀ operator, s.label = .assignment operator → s.category = .reassignment) ∧
    ∀ name target', target.isMember = true →
      (target.leftMost.child? .expression).bind Node.identifier? = some name →
      Node.Uncast target target' →
      s.retarget target' ∈ walk (s.retarget target').top ∧
      (Rule.noMutation.Violates o (s.retarget target') ↔ Rule.noMutation.Violates o s ∧
        ∀ operator, s.label = .assignment operator → (s.retarget target').isExempt o = false) ∧
      ((∀ operator, s.label = .assignment operator →
          (s.retarget target').writesExports = false ∧
            (s.retarget target').writesPrototype = false) →
        (s.retarget target').category = s.category) := by
  have hon := Node.onCast_leftMost hcast
  refine ⟨?_, ?_, ?_⟩
  · rw [hwrites.violates_iff, isLocal_of_onCast hon]
    refine and_congr_right fun _ => forall_congr' fun operator => ?_
    refine imp_congr_right fun hl => ?_
    obtain ⟨hexports, hprototype⟩ := hwrites.not_special hon hl
    simp [isExempt, hexports, hprototype]
  · intro operator hl
    obtain ⟨hexports, hprototype⟩ := hwrites.not_special hon hl
    exact category_of_not_special hl hexports hprototype
  · intro name target' hmember hname huncast
    have hkeeps := huncast.keeps hon hname
    obtain ⟨start', hwrites', hlike, hstart, hstart'⟩ := hwrites.retarget hs target'
    have hlocal := isLocal_of_keeps (o := o) hon hmember hkeeps hlike hstart hstart'
    refine ⟨replace_mem_walk hs _, ?_, ?_⟩
    · rw [hwrites'.violates_iff, hwrites.violates_iff, hlocal]
      constructor
      · rintro ⟨hnot, hexempt⟩
        refine ⟨⟨hnot, fun operator hl => ?_⟩, hexempt⟩
        by_contra hyes
        have := hwrites.isExempt_retarget hs hon hkeeps hl (by simpa using hyes)
        simp [hexempt operator hl] at this
      · rintro ⟨⟨hnot, -⟩, hexempt⟩
        exact ⟨hnot, hexempt⟩
    · intro hplain
      rcases hwrites.label with ⟨operator, hl⟩ | ⟨operator, leading, hl⟩
      · obtain ⟨hexports, hprototype⟩ := hwrites.not_special hon hl
        obtain ⟨hexports', hprototype'⟩ := hplain operator hl
        rw [category_of_not_special hl hexports hprototype,
          category_of_not_special (label_retarget.trans hl) hexports' hprototype']
      · simp [category, label_retarget, hl]

namespace CastWrites

def castTree (column : Int) (field : String) : SyntaxTree :=
  .mk "parenthesized_expression" true (some field) ⟨column, column + 10, 0, column⟩
    [.mk "as_expression" true none ⟨column + 1, column + 9, 0, column + 1⟩
      [.mk "identifier" true none ⟨column + 1, column + 2, 0, column + 1⟩ [],
        .mk "as" false none ⟨column + 3, column + 5, 0, column + 3⟩ [],
        .mk "predefined_type" true none ⟨column + 6, column + 9, 0, column + 6⟩ []]]

/-- The tree of `const x = {}; (x as any).b = (x as any) = 1`. -/
def tree : SyntaxTree :=
  .mk "program" true none ⟨0, 43, 0, 0⟩
    [.mk "lexical_declaration" true none ⟨0, 13, 0, 0⟩
      [.mk "const" false (some "kind") ⟨0, 5, 0, 0⟩ [],
        .mk "variable_declarator" true none ⟨6, 12, 0, 6⟩
          [.mk "identifier" true (some "name") ⟨6, 7, 0, 6⟩ [],
            .mk "object" true (some "value") ⟨10, 12, 0, 10⟩ []]],
      .mk "expression_statement" true none ⟨14, 43, 0, 14⟩
        [.mk "assignment_expression" true none ⟨14, 43, 0, 14⟩
          [.mk "member_expression" true (some "left") ⟨14, 26, 0, 14⟩
            [castTree 14 "object",
              .mk "property_identifier" true (some "property") ⟨25, 26, 0, 25⟩ []],
            .mk "assignment_expression" true (some "right") ⟨29, 43, 0, 29⟩
              [castTree 29 "left", .mk "number" true (some "right") ⟨42, 43, 0, 42⟩ []]]]]

def x (column : Int) : Node := .mk (.identifier "x") ⟨column, column + 1, 0, column⟩ []

def castX (column : Int) : Node :=
  .mk .cast ⟨column, column + 8, 0, column⟩ [(.expression, x column)]

def member : Node :=
  .mk (.member false false) ⟨14, 26, 0, 14⟩
    [(.object, castX 15), (.property, .mk (.identifier "b") ⟨25, 26, 0, 25⟩ [])]

/-- The assignment `(x as any) = 1`. -/
def inner : Node :=
  .mk (.assignment "=") ⟨29, 43, 0, 29⟩
    [(.left, castX 30), (.right, .mk (.literal "1") ⟨42, 43, 0, 42⟩ [])]

def outer : Node := .mk (.assignment "=") ⟨14, 43, 0, 14⟩ [(.left, member), (.right, inner)]

def statement : Node := .mk .expressionStatement ⟨14, 43, 0, 14⟩ [(.expression, outer)]

def declaration : Node :=
  .mk (.variableDeclaration "const") ⟨0, 13, 0, 0⟩
    [(.declarations, .mk .variableDeclarator ⟨6, 12, 0, 6⟩
      [(.id, x 6), (.init, .mk .objectExpression ⟨10, 12, 0, 10⟩ [])])]

def program : Node :=
  .mk .program ⟨0, 43, 0, 0⟩ [(.body, declaration), (.body, statement)]

def statementSite : Site := (root program).descend 1 .body statement

def outerSite : Site := statementSite.descend 0 .expression outer

def innerSite : Site := outerSite.descend 1 .right inner

theorem built :
    tree.program (.ofText "const x = {}; (x as any).b = (x as any) = 1") = .ok program := by rfl

theorem outerSite_mem_walk : outerSite ∈ walk program :=
  mem_walk.mpr ((Under.refl.child (mem_children.mpr ⟨1, _, _, rfl, rfl⟩)).child
    (mem_children.mpr ⟨0, _, _, rfl, rfl⟩))

theorem innerSite_mem_walk : innerSite ∈ walk program :=
  mem_walk_of_mem_children outerSite_mem_walk (mem_children.mpr ⟨1, _, _, rfl, rfl⟩)

end CastWrites

open CastWrites in
/-- The constant `x` is fresh, so that its member may be written, with the cast and without. -/
theorem castWrites_verdicts :
    outerSite ∈ walk program ∧ Writes outerSite member statementSite ∧
    member.leftMost.label = .cast ∧ Node.Uncast member (member.withChild .object (x 15)) ∧
    ¬ Rule.noMutation.Violates {} outerSite ∧
    ¬ Rule.noMutation.Violates {} (outerSite.retarget (member.withChild .object (x 15))) := by
  have hwrites : Writes outerSite member statementSite := .assignment rfl rfl rfl
  have huncast : Node.Uncast member (member.withChild .object (x 15)) :=
    .inside rfl rfl (.drop rfl rfl (.refl _))
  obtain ⟨hiff, -, hdrop⟩ := cast_write_verdicts outerSite_mem_walk hwrites rfl {}
  have hfresh : Target.isFresh ⟨(member.leftMost.child? .expression).bind Node.identifier?,
      some statementSite⟩ false = true := by decide +kernel
  have hallowed : ¬ Rule.noMutation.Violates {} outerSite := by
    intro h
    exact Bool.false_ne_true ((hiff.mp h).1.symm.trans hfresh)
  refine ⟨outerSite_mem_walk, hwrites, rfl, huncast, hallowed, fun h => hallowed ?_⟩
  exact ((hdrop "x" _ rfl rfl huncast).2.1.mp h).1

open CastWrites in
/-- Casts are not transparent in targets: `x = 1` is a violation for a constant `x`, and
`(x as any) = 1` is none. -/
theorem not_forall_uncast_verdict :
    ¬ ∀ (source : Source) (tree : SyntaxTree) (program : Node) (s start : Site)
      (target target' : Node) (o : Options), tree.program source = .ok program →
      s ∈ walk program → Writes s target start → Node.Uncast target target' →
      (Rule.noMutation.Violates o (s.retarget target') ↔ Rule.noMutation.Violates o s) ∧
        (s.retarget target').category = s.category := by
  intro transparent
  have hwrites : Writes innerSite (castX 30) outerSite := .assignment rfl rfl rfl
  have huncast : Node.Uncast (castX 30) (x 30) := .drop rfl rfl (.refl _)
  have hreported : Rule.noMutation.Violates {} (innerSite.retarget (x 30)) :=
    ⟨by decide +kernel, by decide +kernel⟩
  have hlocal : Rule.isLocal {} innerSite.left? innerSite.parent? = true := by decide +kernel
  obtain ⟨hiff, -⟩ := transparent _ tree program innerSite outerSite (castX 30) (x 30) {} built
    innerSite_mem_walk hwrites huncast
  have hsilent := (hiff.mp hreported).2
  rw [hlocal] at hsilent
  cases hsilent

end MutationLint
