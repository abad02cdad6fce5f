import MutationLint.Proofs.Exemption.Callbacks
import MutationLint.Proofs.Node.Keys

/-! Programs that differ in one computed key. Place by place their nodes are counterparts, so that
the ways up from two such places lead through counterparts, and what is exempt in one program is
exempt in the other, as long as the two keys are interchangeable. -/

namespace MutationLint

namespace Node.Counterpart

variable {o : Options} {n n' : Node}

theorem label_cases (h : Counterpart o n n') : n'.label = n.label ∨
    (∃ c c' optional, n.label = .member c optional ∧ n'.label = .member c' optional) ∨
    ∃ name name', n.label = .identifier name ∧ n'.label = .identifier name' := by
  cases h with
  | rekeyed h =>
    rcases h.cases with hfollows | ⟨hl, hl', -⟩
    · exact .inl hfollows.label
    · exact .inr (.inl ⟨_, _, _, hl, hl'⟩)
  | key other hl => exact .inr (.inr ⟨_, other, hl, rfl⟩)

theorem label_congr {β : Type} {f : Label → β} (h : Counterpart o n n')
    (hmember : ∀ c c' optional, f (.member c optional) = f (.member c' optional))
    (hname : ∀ name name', f (.identifier name) = f (.identifier name')) :
    f n'.label = f n.label := by
  rcases h.label_cases with hl | ⟨_, _, _, hl, hl'⟩ | ⟨_, _, hl, hl'⟩
  · rw [hl]
  · rw [hl, hl']
    exact hmember _ _ _
  · rw [hl, hl']
    exact hname _ _

theorem child? (h : Counterpart o n n') (role : Role) (hrole : role ≠ .property) :
    Option.Rel (Rekeyed o) (n.child? role) (n'.child? role) := by
  cases h with
  | rekeyed h => exact h.child? role hrole
  | key => exact rel_child? (List.forall₂_same.mpr fun c _ => .refl c)

theorem callee (h : Counterpart o n n') :
    Option.Rel (fun c c' => c'.isReducer o.reducers = c.isReducer o.reducers)
      (n.child? .callee) (n'.child? .callee) := by
  cases h with
  | rekeyed h => exact h.callee
  | key => exact rel_child? (List.forall₂_same.mpr fun _ _ => rfl)

theorem statements (h : Counterpart o n n') (name : String) :
    n'.statements.any (·.declaresFunction name) = n.statements.any (·.declaresFunction name) := by
  cases h with
  | rekeyed h => exact h.statements name
  | key other hl => simp [Node.statements, hl, withLabel, Label.isStatementList]

theorem renameKey (name : String) (c : Role × Node) : Counterpart o c.2 (renameKey name c).2 := by
  unfold Node.renameKey
  split_ifs with hc
  · obtain ⟨old, hold⟩ := Option.isSome_iff_exists.mp hc.2
    exact .key name (identifier?_eq_some_iff.mp hold)
  · exact .rekeyed (.refl _)

/-- Child by child the roles are the same, and the nodes are counterparts. -/
theorem children (h : Counterpart o n n') :
    List.Forall₂ (fun c c' => c'.1 = c.1 ∧ Counterpart o c.2 c'.2) n.children n'.children := by
  have hrefl (c : Role × Node) : c.1 = c.1 ∧ Counterpart o c.2 c.2 := ⟨rfl, .rekeyed (.refl c.2)⟩
  cases h with
  | key => exact List.forall₂_same.mpr fun c _ => hrefl c
  | rekeyed h =>
    cases h with
    | refl => exact List.forall₂_same.mpr fun c _ => hrefl c
    | key =>
      refine List.forall₂_map_right_iff.mpr (List.forall₂_same.mpr fun c _ => ?_)
      exact ⟨fst_renameKey _ c, renameKey _ c⟩
    | inside hi hc _ => exact forall₂_set hrefl hi ⟨rfl, .rekeyed hc⟩

end Node.Counterpart

namespace Site

theorem inReducer_eq (reducers : List Text) (s : Site) : s.inReducer reducers =
    (s.block?.bind parent?).any fun call => call.label.isCall &&
      (call.node.child? .callee).any (·.isReducer reducers) := by
  unfold inReducer
  cases s.block?.bind parent? with
  | none => rfl
  | some call =>
    cases hcallee : call.node.child? .callee with
    | none => simp [hcallee]
    | some callee => cases hname : callee.calleeName? <;> simp [hcallee, hname, Node.isReducer]

/-- The sites have one address, and the nodes at them and above them are counterparts. -/
inductive Parallel (o : Options) : Site → Site → Prop
  | top {n n' : Node} : n.Counterpart o n' → Parallel o ⟨n, []⟩ ⟨n', []⟩
  | step {n n' : Node} {t t' : Step} {path path' : List Step} : n.Counterpart o n' →
      t'.role = t.role → t'.index = t.index → Parallel o ⟨t.parent, path⟩ ⟨t'.parent, path'⟩ →
      Parallel o ⟨n, t :: path⟩ ⟨n', t' :: path'⟩

namespace Parallel

variable {o : Options} {s s' : Site}

theorem counterpart (h : Parallel o s s') : s.node.Counterpart o s'.node := by
  cases h with
  | top h => exact h
  | step h _ _ _ => exact h

theorem address (h : Parallel o s s') : s'.address = s.address := by
  induction h with
  | top _ => rfl
  | step _ _ hindex _ ih => exact congrArg₂ List.cons hindex ih

theorem role? (h : Parallel o s s') : s'.role? = s.role? := by
  cases h with
  | top _ => rfl
  | step _ hrole _ _ => exact congrArg some hrole

theorem parent? (h : Parallel o s s') : Option.Rel (Parallel o) s.parent? s'.parent? := by
  cases h with
  | top _ => exact .none
  | step _ _ _ h => exact .some h

theorem endsBlock (h : Parallel o s s') : s'.label.endsBlock = s.label.endsBlock :=
  h.counterpart.label_congr (fun _ _ _ => rfl) fun _ _ => rfl

theorem block? (h : Parallel o s s') : Option.Rel (Parallel o) s.block? s'.block? := by
  induction h with
  | @top n n' hn =>
    have hends := (Parallel.top hn).endsBlock
    rw [block?_eq, block?_eq ⟨n', []⟩, hends]
    split_ifs
    · exact .some (.top hn)
    · exact .none
  | @step n n' t t' path path' hn hrole hindex hp ih =>
    have hsites := Parallel.step hn hrole hindex hp
    rw [block?_eq, block?_eq ⟨n', t' :: path'⟩, hsites.endsBlock]
    split_ifs
    · exact .some hsites
    · exact ih

theorem hasFunction (h : Parallel o s s') (name : String) :
    s'.hasFunction name = s.hasFunction name := by
  unfold Site.hasFunction blockScope
  induction h with
  | top h => simp [upTo, h.statements name]
  | step h _ _ hp ih =>
    have hends := h.label_congr (f := Label.endsBlock) (fun _ _ _ => rfl) fun _ _ => rfl
    simp only [upTo, hends, List.any_cons, h.statements name]
    split_ifs
    · rfl
    · rw [ih]

/-! ### Reducers -/

theorem isCall (h : Parallel o s s') : s'.label.isCall = s.label.isCall :=
  h.counterpart.label_congr (fun _ _ _ => rfl) fun _ _ => rfl

theorem inReducer (h : Parallel o s s') : s'.inReducer o.reducers = s.inReducer o.reducers := by
  rw [inReducer_eq, inReducer_eq]
  refine any_eq_of_rel (rel_bind h.block? fun _ _ hb => hb.parent?) fun call call' hcall => ?_
  rw [hcall.isCall, any_eq_of_rel hcall.counterpart.callee fun _ _ hc => hc]

theorem resultOf? (h : Parallel o s s') : Option.Rel (Parallel o) s.resultOf? s'.resultOf? := by
  unfold Site.resultOf?
  rw [h.role?]
  refine rel_bind h.parent? fun p p' hp => ?_
  rcases hp.counterpart.label_cases with hl | ⟨_, _, _, hl, hl'⟩ | ⟨_, _, hl, hl'⟩
  · simp only [label, hl]
    split
    · split_ifs
      · exact hp.block?
      · exact .none
    · split_ifs
      · exact .some hp
      · exact .none
    · exact .none
  · simp [label, hl, hl']
  · simp [label, hl, hl']

theorem isReducerResult (h : Parallel o s s') :
    s'.isReducerResult o.reducers = s.isReducerResult o.reducers := by
  have hresult := h.resultOf?
  unfold Site.isReducerResult
  generalize s.resultOf? = c?, s'.resultOf? = c'? at hresult
  cases hresult with
  | none => rfl
  | some hc => exact hc.inReducer

/-! ### Assignments -/

theorem left? (h : Parallel o s s') : Option.Rel (Node.Rekeyed o) s.left? s'.left? :=
  h.counterpart.child? .left (by decide)

theorem writesExports (h : Parallel o s s') : s'.writesExports = s.writesExports :=
  congrArg (·.getD false) (map_eq_of_rel h.left? fun _ _ ht => ht.reachesExports)

theorem writesException (h : Parallel o s s') :
    s'.writesException o.patterns = s.writesException o.patterns :=
  congrArg (·.getD false) (map_eq_of_rel h.left? fun _ _ ht => ht.anyMatches)

theorem isFunction (h : Parallel o s s') :
    (Target.of s'.left? s'.parent?).isFunction = (Target.of s.left? s.parent?).isFunction := by
  have hparent := h.parent?
  unfold Target.isFunction Target.holds Target.of
  rw [bind_eq_of_rel h.left? fun _ _ ht => ht.base?]
  generalize s.parent? = p?, s'.parent? = p'? at hparent
  cases s.left?.bind Node.base? with
  | none => rfl
  | some name =>
    cases hparent with
    | none => rfl
    | some hp => exact hp.hasFunction name

theorem writesPrototype (h : Parallel o s s') : s'.writesPrototype = s.writesPrototype := by
  unfold Site.writesPrototype
  rw [h.isFunction, map_eq_of_rel h.left? fun _ _ ht => ht.isPrototype]

theorem errorType (h : Parallel o s s') : s'.errorType = s.errorType := by
  unfold Site.errorType
  rw [h.writesExports, h.writesPrototype]

theorem parentInReducer (h : Parallel o s s') :
    s'.parentInReducer o.reducers = s.parentInReducer o.reducers :=
  congrArg (·.getD false) (map_eq_of_rel h.parent? fun _ _ hp => hp.inReducer)

theorem isExempt (h : Parallel o s s') : s'.isExempt o = s.isExempt o := by
  unfold Site.isExempt
  rw [h.writesExports, h.writesPrototype, h.writesException, h.parentInReducer]

end Parallel

/-! ### Replacing a key in a program -/

/-- Every place of a program is one of its counterpart. -/
theorem exists_parallel {o : Options} {P P' : Node} (h : P.Counterpart o P') {s : Site}
    (hs : s ∈ walk P) : ∃ s' ∈ walk P', Parallel o s s' := by
  rw [mem_walk] at hs
  induction hs with
  | refl => exact ⟨root P', root_mem_walk P', .top h⟩
  | @child p c _ hc ih =>
    obtain ⟨p', hp', hpp⟩ := ih
    obtain ⟨i, role, n, hi, rfl⟩ := mem_children.mp hc
    obtain ⟨⟨role', n'⟩, hi', hrole, hn⟩ := exists_getElem?_of_forall₂ hpp.counterpart.children hi
    have hc' : p'.descend i role' n' ∈ p'.children := mem_children.mpr ⟨i, _, _, hi', rfl⟩
    exact ⟨_, mem_walk_of_mem_children hp' hc', .step hn hrole rfl hpp⟩

theorem programWith_descend (p : Site) (i : Nat) (role : Role) (k n : Node) :
    (p.descend i role k).programWith n = p.programWith (Step.put ⟨p.node, role, i⟩ n) := by
  have hparent : ((p.descend i role k).replace n).parent? =
      some (p.replace (Step.put ⟨p.node, role, i⟩ n)) := rfl
  exact (top_of_parent? hparent).symm

theorem rekeyed_programWith {o : Options} {P : Node} {m : Site} (hm : m ∈ walk P) {n : Node}
    (h : m.node.Rekeyed o n) (hcallee : m.role? = some .callee →
      n.isReducer o.reducers = m.node.isReducer o.reducers) :
    P.Rekeyed o (m.programWith n) := by
  rw [mem_walk] at hm
  induction hm generalizing n with
  | refl => exact h
  | @child p c _ hc ih =>
    obtain ⟨i, role, k, hi, rfl⟩ := mem_children.mp hc
    rw [programWith_descend]
    refine ih (.inside hi h fun hrole => hcallee (congrArg some hrole)) fun _ => ?_
    exact (Node.follows_put hi h).isReducer

end Site

open Site Node

/-- A computed key may be replaced by an interchangeable one. Then everything in the program stays
as exempt as it was, and of the same error type. So the name of a computed key counts only where it
is one of the names looked for, and there it counts as if the access were not computed. -/
theorem computed_key_interchangeable {P : Node} {m : Site} (hm : m ∈ walk P) {key : Node}
    {optional computed : Bool} {name other : String} {o : Options}
    (hl : m.label = .member true optional) (hkey : m.node.child? .property = some key)
    (hname : key.label = .identifier name)
    (h : m.node.Interchangeable o name computed other)
    (hcallee : m.role? = some .callee →
      (Text.ofString name ∈ o.reducers ↔ Text.ofString other ∈ o.reducers))
    {s : Site} (hs : s ∈ walk P) :
    ∃ s' ∈ walk (m.programWith (m.node.withKey computed other)), s'.address = s.address ∧
      s'.isExempt o = s.isExempt o ∧ s'.errorType = s.errorType ∧
      s'.inReducer o.reducers = s.inReducer o.reducers ∧
      s'.isReducerResult o.reducers = s.isReducerResult o.reducers := by
  have hreducer : m.role? = some .callee →
      (m.node.withKey computed other).isReducer o.reducers = m.node.isReducer o.reducers := by
    intro hrole
    rw [isReducer_of_key hl hkey hname, isReducer_of_key (label_withKey hl)
      (property_withKey hkey hname) rfl, Bool.eq_iff_iff, List.contains_iff_mem,
      List.contains_iff_mem]
    exact (hcallee hrole).symm
  have hprogram := rekeyed_programWith hm (.key hl hkey hname h) hreducer
  obtain ⟨s', hs', hss⟩ := exists_parallel (.rekeyed hprogram) hs
  exact ⟨s', hs', hss.address, hss.isExempt, hss.errorType, hss.inReducer, hss.isReducerResult⟩

namespace KeyedWrite

/-- The tree of `module[exports] = 1`. -/
def tree : SyntaxTree :=
  .mk "program" true none ⟨0, 19, 0, 0⟩
    [.mk "expression_statement" true none ⟨0, 19, 0, 0⟩
      [.mk "assignment_expression" true none ⟨0, 19, 0, 0⟩
        [.mk "subscript_expression" true (some "left") ⟨0, 15, 0, 0⟩
          [.mk "identifier" true (some "object") ⟨0, 6, 0, 0⟩ [],
            .mk "identifier" true (some "index") ⟨7, 14, 0, 7⟩ []],
          .mk "number" true (some "right") ⟨18, 19, 0, 18⟩ []]]]

def key : Node := .mk (.identifier "exports") ⟨7, 14, 0, 7⟩ []

def target : Node :=
  .mk (.member true false) ⟨0, 15, 0, 0⟩
    [(.object, .mk (.identifier "module") ⟨0, 6, 0, 0⟩ []), (.property, key)]

def assignment : Node :=
  .mk (.assignment "=") ⟨0, 19, 0, 0⟩
    [(.left, target), (.right, .mk (.literal "1") ⟨18, 19, 0, 18⟩ [])]

def statement : Node := .mk .expressionStatement ⟨0, 19, 0, 0⟩ [(.expression, assignment)]

def program : Node := .mk .program ⟨0, 19, 0, 0⟩ [(.body, statement)]

def assignmentSite : Site :=
  ((root program).descend 0 .body statement).descend 0 .expression assignment

def targetSite : Site := assignmentSite.descend 0 .left target

theorem built : tree.program (.ofText "module[exports] = 1") = .ok program := by rfl

theorem assignmentSite_mem_walk : assignmentSite ∈ walk program :=
  mem_walk.mpr ((Under.refl.child (mem_children.mpr ⟨0, _, _, rfl, rfl⟩)).child
    (mem_children.mpr ⟨0, _, _, rfl, rfl⟩))

/-! The assignment `module[exports][i] = 1`, which is to a member of that target. -/

def index : Node := .mk (.identifier "i") ⟨16, 17, 0, 16⟩ []

def element : Node :=
  .mk (.member true false) ⟨0, 18, 0, 0⟩ [(.object, target), (.property, index)]

def elementAssignment : Node :=
  .mk (.assignment "=") ⟨0, 22, 0, 0⟩
    [(.left, element), (.right, .mk (.literal "1") ⟨21, 22, 0, 21⟩ [])]

def elementStatement : Node :=
  .mk .expressionStatement ⟨0, 22, 0, 0⟩ [(.expression, elementAssignment)]

def elementProgram : Node := .mk .program ⟨0, 22, 0, 0⟩ [(.body, elementStatement)]

def elementAssignmentSite : Site :=
  ((root elementProgram).descend 0 .body elementStatement).descend 0 .expression elementAssignment

def elementSite : Site := elementAssignmentSite.descend 0 .left element

theorem elementAssignmentSite_mem_walk : elementAssignmentSite ∈ walk elementProgram :=
  mem_walk.mpr ((Under.refl.child (mem_children.mpr ⟨0, _, _, rfl, rfl⟩)).child
    (mem_children.mpr ⟨0, _, _, rfl, rfl⟩))

theorem elementSite_mem_walk : elementSite ∈ walk elementProgram :=
  mem_walk_of_mem_children elementAssignmentSite_mem_walk (mem_children.mpr ⟨0, _, _, rfl, rfl⟩)

end KeyedWrite

open KeyedWrite in
/-- The assignments `module[exports][i] = 1` and `module[exports][j] = 1` are both taken for writes
to the exports of the module. -/
theorem keyedWrite_as_other_key :
    elementSite ∈ walk elementProgram ∧ element.Interchangeable {} "i" true "j" ∧
    elementAssignmentSite.errorType = .commonJs ∧
    ∃ s' ∈ walk (elementSite.programWith (element.withKey true "j")),
      s'.address = elementAssignmentSite.address ∧ s'.errorType = .commonJs := by
  have halike : element.Interchangeable {} "i" true "j" :=
    { exports := fun _ => by simp
      prototype := fun _ => by simp
      exceptions := by simp
      object := by simp }
  have herror : elementAssignmentSite.errorType = .commonJs := by decide +kernel
  have hkey : elementSite.node.child? .property = some index := rfl
  obtain ⟨s', hs', haddress, -, hsame, -⟩ := computed_key_interchangeable elementSite_mem_walk rfl
    hkey rfl halike (fun hcallee => absurd hcallee (by decide)) elementAssignmentSite_mem_walk
  exact ⟨elementSite_mem_walk, halike, herror, s', hs', haddress, hsame.trans herror⟩

open KeyedWrite in
/-- The name of a computed key matters, and already for a target itself: `module[exports] = 1` and
`module[x] = 1` are not of the same error type. -/
theorem not_forall_computed_key_irrelevant :
    ¬ ∀ (source : Source) (tree : SyntaxTree) (program : Node) (s m : Site) (key : Node)
      (operator name other : String) (optional : Bool) (o : Options),
      tree.program source = .ok program → s ∈ walk program → s.label = .assignment operator →
      m ∈ s.childrenIn .left → m.label = .member true optional →
      m.node.child? .property = some key → key.label = .identifier name →
      ∃ s' ∈ walk (m.programWith (m.node.withKey true other)), s'.address = s.address ∧
        s'.isExempt o = s.isExempt o ∧ s'.errorType = s.errorType := by
  intro irrelevant
  have htarget : targetSite ∈ assignmentSite.childrenIn .left :=
    List.mem_filter.mpr ⟨mem_children.mpr ⟨0, _, _, rfl, rfl⟩, rfl⟩
  obtain ⟨s', hs', -, -, hsame⟩ := irrelevant _ tree program assignmentSite targetSite key
    "=" "exports" "x" false {} built assignmentSite_mem_walk rfl htarget rfl rfl rfl
  have herror : assignmentSite.errorType = .commonJs := by decide +kernel
  have hregular : ∀ s' ∈ walk (targetSite.programWith (target.withKey true "x")),
      s'.errorType = .regular := by decide +kernel
  rw [herror] at hsame
  cases (hregular s' hs').symm.trans hsame

end MutationLint
