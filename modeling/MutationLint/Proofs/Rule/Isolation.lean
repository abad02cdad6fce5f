import MutationLint.Proofs.Rule.Violation
import MutationLint.Proofs.Scope.Isolation

/-! Function and class declarations are checked in isolation. What a rule says about a site inside
one is the same in every program that holds the declaration, unless the declaration stands in a
call: a call directly above it may be one of a reducer. -/

namespace MutationLint

namespace Site

theorem closed_of_mem_upTo {stops : Label → Bool} {t : Site} :
    ∀ {n : Node} {path : List Step}, t ∈ upTo stops n path → Closed ⟨n, path⟩ → t.Closed := by
  intro n path
  induction path generalizing n with
  | nil =>
    intro ht hc
    rw [upTo, List.mem_singleton] at ht
    exact ht ▸ hc
  | cons step path ih =>
    intro ht hc
    rw [upTo, List.mem_cons] at ht
    rcases ht with rfl | ht
    · exact hc
    · have hmem : t ∈ upTo stops step.parent path := by
        split at ht
        · cases ht
        · exact ht
      exact ih hmem (hc.of_parent? rfl)

theorem Closed.of_block? {s b : Site} (h : s.Closed) (hb : s.block? = some b) : b.Closed :=
  closed_of_mem_upTo (List.mem_of_find?_eq_some hb) h

theorem Closed.of_resultOf? {s callback : Site} (h : s.Closed)
    (hr : s.resultOf? = some callback) : callback.Closed := by
  obtain ⟨p, hp, hr⟩ := Option.bind_eq_some_iff.mp hr
  have hpc := h.of_parent? hp
  split at hr
  · split at hr
    · exact hpc.of_block? hr
    · cases hr
  · split at hr
    · cases hr
      exact hpc
    · cases hr
  · cases hr

/-- The map puts no call above what stood at the top. -/
def Uncalled (φ : Site → Site) : Prop :=
  ∀ s p : Site, s.parent? = none → (φ s).parent? = some p → p.label.isCall = false

namespace Unnoticed

variable {φ : Site → Site} (h : Unnoticed φ)
include h

theorem bind_child? {β : Type} {g : Node → Option β} (hg : ∀ n : Node, g n.bare = g n) (s : Site)
    (role : Role) : ((φ s).node.child? role).bind g = (s.node.child? role).bind g := by
  rw [← Node.bind_map_bare hg, h.child?_bare, Node.bind_map_bare hg]

theorem map_child? {β : Type} {g : Node → β} (hg : ∀ n : Node, g n.bare = g n) (s : Site)
    (role : Role) : ((φ s).node.child? role).map g = (s.node.child? role).map g := by
  rw [← Node.map_map_bare hg, h.child?_bare, Node.map_map_bare hg]

/-! ### Reducers -/

theorem block? {s : Site} (hc : s.Closed) : (φ s).block? = s.block?.map φ := by
  rw [Site.block?, h.blockScope hc, List.find?_map, Site.block?]
  congr 2
  funext b
  rw [Function.comp_apply, h.label]

theorem inReducer (hu : Uncalled φ) {s : Site} (hc : s.Closed) (reducers : List Text) :
    (φ s).inReducer reducers = s.inReducer reducers := by
  rw [Site.inReducer, Site.inReducer, h.block? hc]
  cases s.block? with
  | none => rfl
  | some b =>
    simp only [Option.map_some, Option.bind_some]
    cases hp : b.parent? with
    | some p =>
      simp only [h.parent b p hp, h.label, h.bind_child? Node.calleeName?_bare]
    | none =>
      -- the block is the topmost node: what the map may have put above it is no call
      cases hq : (φ b).parent? with
      | none => rfl
      | some q => simp only [hu b q hp hq, Bool.false_and]

theorem resultOf? {s p : Site} (hp : s.parent? = some p) (hc : s.Closed) :
    (φ s).resultOf? = s.resultOf?.map φ := by
  rw [Site.resultOf?, Site.resultOf?, h.parent s p hp, hp, Option.bind_some, Option.bind_some,
    h.label, h.role s p hp]
  split
  · rw [h.block? (hc.of_parent? hp)]
    cases s.role? == some .argument <;> rfl
  · cases s.role? == some .body <;> rfl
  · rfl

theorem isReducerResult (hu : Uncalled φ) {s p : Site} (hp : s.parent? = some p) (hc : s.Closed)
    (reducers : List Text) :
    (φ s).isReducerResult reducers = s.isReducerResult reducers := by
  rw [Site.isReducerResult, Site.isReducerResult, h.resultOf? hp hc]
  cases hr : s.resultOf? with
  | none => rfl
  | some callback => exact h.inReducer hu (hc.of_resultOf? hr) reducers

/-! ### Targets -/

section
variable {P Q : Node} {s : Site} (hs : s ∈ walk P) (hφ : φ s ∈ walk Q) (hc : s.Closed)
include hs hφ hc

theorem target_isRebindable (name? : Option String) :
    (Target.mk name? (some (φ s))).isRebindable = (Target.mk name? (some s)).isRebindable := by
  cases name? with
  | none => rfl
  | some name => exact h.isRebindable hs hφ hc name

theorem target_isFresh (name? : Option String) (functions : Bool) :
    (Target.mk name? (some (φ s))).isFresh functions =
      (Target.mk name? (some s)).isFresh functions := by
  cases name? with
  | none => rfl
  | some name =>
    exact congrArg₂ (fun x y => functions && x || y) (h.hasFunction hc name)
      (h.isFresh hs hφ hc name)

theorem isLocal (o : Options) {t t' : Option Node} (ht : t'.map Node.bare = t.map Node.bare) :
    Rule.isLocal o t' (some (φ s)) = Rule.isLocal o t (some s) := by
  have hid (n : Node) : n.bare.identifier?.isSome = n.identifier?.isSome := by
    rw [Node.identifier?_bare]
  have hname : t'.map (·.identifier?.isSome) = t.map (·.identifier?.isSome) := by
    rw [← Node.map_map_bare hid, ht, Node.map_map_bare hid]
  have hbase : t'.bind Node.base? = t.bind Node.base? := by
    rw [← Node.bind_map_bare Node.base?_bare, ht, Node.bind_map_bare Node.base?_bare]
  rw [Rule.isLocal, Rule.isLocal, hname, Target.of, Target.of, hbase,
    h.target_isRebindable hs hφ hc, h.target_isFresh hs hφ hc]

theorem freshFirst (o : Options) : Rule.freshFirst o (φ s) = Rule.freshFirst o s := by
  have hargs : ((φ s).node.childrenIn .arguments).map Node.bare =
      (s.node.childrenIn .arguments).map Node.bare := by
    rw [← Node.childrenIn_bare, h.node, Node.childrenIn_bare]
  rw [Rule.freshFirst, Rule.freshFirst]
  cases ha : s.node.childrenIn .arguments with
  | nil =>
    rw [ha, List.map_nil, List.map_eq_nil_iff] at hargs
    rw [hargs]
  | cons target rest =>
    rw [ha, List.map_cons] at hargs
    obtain ⟨target', rest', ha', ht, -⟩ := List.map_eq_cons_iff.mp hargs
    have hl : target'.label = target.label := by
      rw [← Node.label_bare, ht, Node.label_bare]
    have hb : target'.base? = target.base? := by
      rw [← Node.base?_bare, ht, Node.base?_bare]
    simp only [ha', hl, Target.of, Option.bind_some, hb, h.target_isFresh hs hφ hc]

end

/-! ### Assignments -/

theorem writesExports (s : Site) : (φ s).writesExports = s.writesExports :=
  congrArg (·.getD false) (h.map_child? Node.reachesExports_bare s .left)

section
variable {s p : Site} (hp : s.parent? = some p) (hc : s.Closed)
include hp hc

theorem writesPrototype : (φ s).writesPrototype = s.writesPrototype := by
  have hfun (name? : Option String) : (Target.mk name? (some (φ p))).isFunction =
      (Target.mk name? (some p)).isFunction := by
    cases name? with
    | none => rfl
    | some name => exact h.hasFunction (hc.of_parent? hp) name
  simp only [Site.writesPrototype, left?, Target.of, h.parent s p hp, hp,
    h.map_child? Node.isPrototype_bare, h.bind_child? Node.base?_bare, hfun]

theorem errorType : (φ s).errorType = s.errorType := by
  rw [Site.errorType, Site.errorType, h.writesExports, h.writesPrototype hp hc]

theorem isExempt (hu : Uncalled φ) (o : Options) : (φ s).isExempt o = s.isExempt o := by
  have hr : (φ s).parentInReducer o.reducers = s.parentInReducer o.reducers := by
    rw [parentInReducer, parentInReducer, h.parent s p hp, hp, Option.map_some, Option.map_some,
      h.inReducer hu (hc.of_parent? hp)]
  rw [Site.isExempt, Site.isExempt, h.writesExports, h.writesPrototype hp hc, writesException,
    left?, h.map_child? (Pattern.anyMatches_bare o.patterns), hr]
  rfl

end

/-! ### Decisions -/

theorem category {s : Site} (hc : s.Closed) : (φ s).category = s.category := by
  rw [Site.category, Site.category, h.label]
  cases hl : s.label with
  | assignment operator =>
    obtain ⟨p, hp⟩ := hc.exists_parent? (by rw [hl]; rfl)
    exact congrArg ErrorType.category (h.errorType hp hc)
  | _ => rfl

theorem violates (hu : Uncalled φ) {P Q : Node} {s : Site} (hs : s ∈ walk P) (hφ : φ s ∈ walk Q)
    (hc : s.Closed) (r : Rule) (o : Options) : r.Violates o (φ s) ↔ r.Violates o s := by
  unfold Rule.Violates
  rw [h.label]
  cases r with
  | noMutation =>
    cases hl : s.label with
    | assignment operator =>
      obtain ⟨p, hp⟩ := hc.exists_parent? (by rw [hl]; rfl)
      have hloc := h.isLocal (mem_walk_of_parent? hs hp)
        (mem_walk_of_parent? hφ (h.parent s p hp)) (hc.of_parent? hp) o (h.child?_bare s .left)
      simp only [h.isExempt hp hc hu, h.parent s p hp, hp, left?, hloc]
    | update operator leading =>
      simp only [h.isLocal hs hφ hc o (h.child?_bare s .argument)]
    | _ => rfl
  | noMutatingFunctions =>
    cases hl : s.label with
    | call optional =>
      obtain ⟨p, hp⟩ := hc.exists_parent? (by rw [hl]; rfl)
      have hargs : (φ s).node.childrenIn .arguments = [] ↔ s.node.childrenIn .arguments = [] := by
        rw [← List.map_eq_nil_iff (f := Node.bare), ← Node.childrenIn_bare, h.node,
          Node.childrenIn_bare, List.map_eq_nil_iff]
      simp only [h.bind_child? Node.qualifiedName?_bare, h.freshFirst hs hφ hc,
        h.isReducerResult hu hp hc, ne_eq, hargs]
    | _ => rfl

end Unnoticed

theorem uncalled_bare : Uncalled bare := by
  intro s p hs hp
  obtain ⟨n, path⟩ := s
  cases path with
  | nil => cases hp
  | cons step path => cases hs

def InCall (s : Site) : Prop := ∃ p, s.parent? = some p ∧ p.label.isCall = true

theorem uncalled_within {d : Site} (h : ¬ d.InCall) : Uncalled (·.within d) := by
  intro s p hs hp
  obtain ⟨n, path⟩ := s
  cases path with
  | nil => exact Bool.eq_false_iff.mpr fun hl => h ⟨p, hp, hl⟩
  | cons step path => cases hs

end Site

open Site

theorem Rule.Settles.category?_eq {r : Rule} {o : Options} {c₁ c₂ : FileContext} {s₁ s₂ : Site}
    {v₁ v₂ : Verdict} (h₁ : r.Settles o c₁ s₁ v₁) (h₂ : r.Settles o c₂ s₂ v₂)
    (hv : r.Violates o s₁ ↔ r.Violates o s₂) (hc : s₁.category = s₂.category) :
    v₁.category? = v₂.category? := by
  rcases h₁ with ⟨hv₁, f₁, rfl, hf₁⟩ | ⟨hv₁, hf₁⟩ <;>
    rcases h₂ with ⟨hv₂, f₂, rfl, hf₂⟩ | ⟨hv₂, hf₂⟩
  · exact congrArg some (hf₁.category.trans (hc.trans hf₂.category.symm))
  · exact absurd (hv.mp hv₁) hv₂
  · exact absurd (hv.mpr hv₂) hv₁
  · rw [Verdict.category?, hf₁, Verdict.category?, hf₂]

/-- A declaration that two programs share has its sites in both, and at each of them the look-ups
answer the same for every target. Where it stands in a call in neither program, the rules decide
the same too, and report under the same category. -/
theorem declaration_checked_in_isolation {P₁ P₂ : Node} {d₁ d₂ : Site}
    (h : Shared P₁ P₂ d₁ d₂) :
    (∀ s₁, Under d₁ s₁ → ∃ s₂, SamePlace d₁ d₂ s₁ s₂) ∧
    ∀ s₁ s₂, SamePlace d₁ d₂ s₁ s₂ →
      (∀ target : Option Node,
        (Target.of target (some s₁)).isRebindable = (Target.of target (some s₂)).isRebindable ∧
        (∀ functions, (Target.of target (some s₁)).isFresh functions =
          (Target.of target (some s₂)).isFresh functions) ∧
        (Target.of target (some s₁)).isFunction = (Target.of target (some s₂)).isFunction) ∧
      (¬ d₁.InCall → ¬ d₂.InCall → ∀ (r : Rule) (o : Options),
        (r.Violates o s₁ ↔ r.Violates o s₂) ∧ s₁.category = s₂.category ∧
        ∀ c₁ c₂ v₁ v₂, r.check o c₁ s₁ = .ok v₁ → r.check o c₂ s₂ = .ok v₂ →
          v₁.category? = v₂.category?) := by
  refine ⟨fun s₁ hs => h.exists_samePlace hs, fun s₁ s₂ hp => ⟨fun target => ?_, ?_⟩⟩
  · simp only [Target.of, Target.isRebindable, Target.isFresh, Target.isFunction, Target.holds]
    cases target.bind Node.base? with
    | none => simp
    | some name =>
      obtain ⟨hlet, hfresh, hfun⟩ := hp.lookups h name
      simp only [hlet, hfresh, hfun, implies_true, and_self]
  · intro hd₁ hd₂ r o
    have hv : r.Violates o s₁ = r.Violates o s₂ := hp.agree (r.Violates o) Uncalled h
      (fun u hu hs hφ hc => propext (u.violates hu hs hφ hc r o))
      uncalled_bare (uncalled_within hd₁) (uncalled_within hd₂)
    have hc : s₁.category = s₂.category := hp.agree category (fun _ => True) h
      (fun u _ _ _ hc => u.category hc) trivial trivial trivial
    refine ⟨iff_of_eq hv, hc, fun c₁ c₂ v₁ v₂ h₁ h₂ => ?_⟩
    exact (Rule.settles_of_check h₁).category?_eq (Rule.settles_of_check h₂) (iff_of_eq hv) hc

namespace Writer

def write (start : Nat) : Node :=
  .mk (.assignment "=") ⟨start, start + 7, 0, start⟩
    [(.left, .mk (.member false false) ⟨start, start + 3, 0, start⟩
        [(.object, .ofName "x"), (.property, .ofName "a")]),
      (.right, .mk (.literal "1") ⟨start + 6, start + 7, 0, start + 6⟩ [])]

def statement (start : Nat) : Node :=
  .mk .expressionStatement ⟨start, start + 7, 0, start⟩ [(.expression, write start)]

def body (start : Nat) : Node :=
  .mk .blockStatement ⟨start, start + 11, 0, start⟩ [(.body, statement (start + 2))]

def declaration (start : Nat) : Node :=
  .mk (.functionDeclaration false false) ⟨start, start + 24, 0, start⟩
    [(.id, .ofName "f"), (.body, body (start + 13))]

/-- The declaration below a `const x` that holds a new object. -/
def belowConst : Node :=
  .mk .program .origin
    [(.body, .mk (.variableDeclaration "const") .origin
      [(.declarations, .mk .variableDeclarator .origin
        [(.id, .ofName "x"), (.init, .mk .objectExpression .origin [])])]),
      (.body, declaration 14)]

def alone : Node := .mk .program .origin [(.body, declaration 0)]

def writeSite (d : Site) (start : Nat) : Site :=
  ((d.descend 1 .body (body (start + 13))).descend 0 .body (statement (start + 15))).descend 0
    .expression (write (start + 15))

theorem under_writeSite {d : Site} {start : Nat} (h : d.node = declaration start) :
    Under d (writeSite d start) := by
  have hbody : d.descend 1 .body (body (start + 13)) ∈ d.children :=
    mem_children.mpr ⟨1, _, _, by rw [h]; rfl, rfl⟩
  exact ((Under.refl.child hbody).child (mem_children.mpr ⟨0, _, _, rfl, rfl⟩)).child
    (mem_children.mpr ⟨0, _, _, rfl, rfl⟩)

end Writer

open Writer in
theorem writer_checked_in_isolation :
    ∃ d₁ d₂, Shared belowConst alone d₁ d₂ ∧ ¬ d₁.InCall ∧ ¬ d₂.InCall ∧
      SamePlace d₁ d₂ (writeSite d₁ 14) (writeSite d₂ 0) ∧
      Rule.noMutation.Violates {} (writeSite d₂ 0) ∧
      Rule.noMutation.Violates {} (writeSite d₁ 14) := by
  let d₁ := (root belowConst).descend 1 .body (declaration 14)
  let d₂ := (root alone).descend 0 .body (declaration 0)
  have hs : Shared belowConst alone d₁ d₂ :=
    ⟨mem_walk_of_mem_children (root_mem_walk _) (mem_children.mpr ⟨1, _, _, rfl, rfl⟩),
      mem_walk_of_mem_children (root_mem_walk _) (mem_children.mpr ⟨0, _, _, rfl, rfl⟩), rfl, rfl⟩
  have hp : SamePlace d₁ d₂ (writeSite d₁ 14) (writeSite d₂ 0) :=
    ⟨under_writeSite rfl, under_writeSite rfl, [0, 0, 1], rfl, rfl⟩
  have hc₁ : ¬ d₁.InCall := by rintro ⟨p, hp, hl⟩; cases hp; cases hl
  have hc₂ : ¬ d₂.InCall := by rintro ⟨p, hp, hl⟩; cases hp; cases hl
  have hv : Rule.noMutation.Violates {} (writeSite d₂ 0) := by
    refine ⟨?_, ?_⟩ <;> decide +kernel
  obtain ⟨hiff, -⟩ := ((declaration_checked_in_isolation hs).2 _ _ hp).2 hc₁ hc₂ .noMutation {}
  exact ⟨d₁, d₂, hs, hc₁, hc₂, hp, hv, hiff.mpr hv⟩

end MutationLint
