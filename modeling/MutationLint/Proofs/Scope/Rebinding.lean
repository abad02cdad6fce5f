import MutationLint.Proofs.Rule.Violation
import MutationLint.Proofs.Scope.CycleGuard

/-! Which names may be assigned again. The nearest node that declares a name decides, by any one of
its declarations: a `let` of the plain name, a `let` that takes a fresh value apart, or the header
of a loop. A name that is only `const`, or `var` outside of a header, is never accepted. -/

namespace MutationLint

namespace Site

def IsHeader (d : Site) : Prop :=
  ∃ loop, d.parent? = some loop ∧ loop.label = .forStatement ∧ d.role? = some .init

/-- The declaration binds the name so that it may be assigned again. -/
inductive Rebinds (name : String) (d : Site) : Prop
  | plain {a : Site} : d.node.declarationKind? = some "let" → d.declarator? name = some a →
      (a.node.child? .id).bind Node.identifier? = some name → Rebinds name d
  | destructured {a : Site} {pattern e : Node} : d.node.declarationKind? = some "let" →
      d.declarator? name = some a → a.node.child? .id = some pattern →
      pattern.label = .objectPattern → a.node.child? .init = some e → FreshInit e d → Rebinds name d
  | header {a : Site} : d.declarator? name = some a → d.IsHeader →
      d.node.declarationKind? ≠ some "const" → Rebinds name d

def IsFixed (d : Site) : Prop :=
  d.node.declarationKind? = some "const" ∨ d.node.declarationKind? = some "var" ∧ ¬ d.IsHeader

theorem IsFixed.not_let {d : Site} (h : d.IsFixed) : d.node.declarationKind? ≠ some "let" := by
  rcases h with hkind | ⟨hkind, -⟩ <;> simp [hkind]

theorem IsFixed.not_rebinds {name : String} {d : Site} (h : d.IsFixed) : ¬ Rebinds name d := by
  rintro (⟨hlet, -, -⟩ | ⟨hlet, -⟩ | ⟨-, hheader, hkind⟩)
  · exact h.not_let hlet
  · exact h.not_let hlet
  · rcases h with hconst | ⟨-, hno⟩
    · exact hkind hconst
    · exact hno hheader

/-! ### One declaration -/

section
variable {name : String} {d a : Site}

theorem Rebinds.declares (h : Rebinds name d) : d.declares name = true := by
  cases h with
  | plain _ ha _ | destructured _ ha _ _ _ _ | header ha _ _ => exact declares_of_declarator? ha

theorem destructures_iff {declarator : Node} : declarator.destructures = true ↔
    ∃ pattern, declarator.child? .id = some pattern ∧ pattern.label = .objectPattern := by
  rw [Node.destructures]
  cases declarator.child? .id <;> simp [Node.isObjectPattern]

/-- A declarator that binds a name without taking an object apart has the name itself. -/
theorem identifier?_of_declarator? (h : d.declarator? name = some a)
    (hplain : a.node.destructures = false) :
    (a.node.child? .id).bind Node.identifier? = some name := by
  rw [declarator?] at h
  have hbound := List.find?_some h
  rw [Node.destructures] at hplain
  rw [Node.boundNames] at hbound
  cases hid : a.node.child? .id with
  | none => simp [hid] at hbound
  | some id =>
    have hnot : id.isObjectPattern = false := by simpa [hid] using hplain
    simpa [hid, hnot, eq_comm] using hbound

theorem isLoopHeaderOf_iff : d.isLoopHeaderOf name = true ↔
    d.label.isVariableDeclaration = true ∧ d.node.declarationKind? ≠ some "const" ∧
      d.IsHeader ∧ d.declares name = true := by
  rw [isLoopHeaderOf, IsHeader]
  cases d.parent? <;> simp [and_assoc]

theorem declaresFresh_iff_freshInit {program : Node} {owner : Site} (hd : d ∈ walk program)
    (hp : d.parent? = some owner) (ha : d.declarator? name = some a) :
    d.declaresFresh name = true ↔ ∃ e, a.node.child? .init = some e ∧ FreshInit e d := by
  rw [declaresFresh_iff hd hp, ha]
  simp only [Option.some.injEq, exists_eq_left',
    initFreshAt_iff (mem_children_of_declarator? ha) hp]
  cases a.node.child? .init with
  | none => simp [initIsFresh]
  | some e => simp [freshInit_iff_exists_freshAt hp]

theorem isLetOf_iff {program : Node} {owner : Site} (hd : d ∈ walk program)
    (hp : d.parent? = some owner) (ha : d.declarator? name = some a) :
    d.isLetOf name = true ↔ d.node.declarationKind? = some "let" ∧
      ((a.node.child? .id).bind Node.identifier? = some name ∨
        ∃ pattern e, a.node.child? .id = some pattern ∧ pattern.label = .objectPattern ∧
          a.node.child? .init = some e ∧ FreshInit e d) := by
  rw [isLetOf, Bool.and_eq_true, beq_iff_eq, ha]
  refine and_congr_right fun _ => ?_
  cases hdes : a.node.destructures with
  | false =>
    simp [hdes, identifier?_of_declarator? ha hdes]
  | true =>
    obtain ⟨pattern, hid, hpattern⟩ := destructures_iff.mp hdes
    have hname : pattern.identifier? = none := by simp [Node.identifier?, hpattern]
    simp [hdes, hid, hpattern, hname, declaresFresh_iff_freshInit hd hp ha]

theorem isRebindableOf_iff {program : Node} {owner : Site} (howner : owner ∈ walk program)
    (hd : d ∈ owner.declarations) (hdeclares : d.declares name = true) :
    d.isRebindableOf name = true ↔ Rebinds name d := by
  have hchild := mem_children_of_mem_declarations hd
  have hdw := mem_walk_of_mem_children howner hchild
  have hp := parent?_of_mem_children hchild
  have hvar : d.label.isVariableDeclaration = true := by
    have := (List.mem_filter.mp hd).2
    exact (Bool.and_eq_true_iff.mp this).1
  obtain ⟨a, ha⟩ := Option.isSome_iff_exists.mp hdeclares
  rw [isRebindableOf, Bool.or_eq_true, isLetOf_iff hdw hp ha, isLoopHeaderOf_iff]
  constructor
  · rintro (⟨hlet, hplain | ⟨pattern, e, hid, hpattern, hinit, hfresh⟩⟩ | ⟨-, hkind, hheader, -⟩)
    · exact .plain hlet ha hplain
    · exact .destructured hlet ha hid hpattern hinit hfresh
    · exact .header ha hheader hkind
  · rintro (⟨hlet, ha', hplain⟩ | ⟨hlet, ha', hid, hpattern, hinit, hfresh⟩ | ⟨-, hheader, hkind⟩)
    · cases ha.symm.trans ha'
      exact .inl ⟨hlet, .inl hplain⟩
    · cases ha.symm.trans ha'
      exact .inl ⟨hlet, .inr ⟨_, _, hid, hpattern, hinit, hfresh⟩⟩
    · exact .inr ⟨hvar, hkind, hheader, hdeclares⟩

end

/-! ### Look-ups -/

theorem isRebindable_iff {program : Node} {start : Site} (h : start ∈ walk program)
    (name : String) : start.isRebindable name = true ↔
      ∃ owner, Nearest name start owner ∧ ∃ d ∈ owner.declarations, Rebinds name d := by
  rw [isRebindable]
  constructor
  · intro hr
    cases ho : start.declaring? name with
    | none => simp [ho] at hr
    | some owner =>
      have hnear := declaring?_eq_some_iff.mp ho
      rw [ho] at hr
      obtain ⟨d, hd, hr⟩ := List.any_eq_true.mp hr
      obtain ⟨hd, hdeclares⟩ := mem_declarationsOf.mp hd
      exact ⟨owner, hnear, d, hd, (isRebindableOf_iff (hnear.mem_walk h) hd hdeclares).mp hr⟩
  · rintro ⟨owner, hnear, d, hd, hr⟩
    have hdeclares := hr.declares
    rw [declaring?_eq_some_iff.mpr hnear]
    exact List.any_eq_true.mpr ⟨d, mem_declarationsOf.mpr ⟨hd, hdeclares⟩,
      (isRebindableOf_iff (hnear.mem_walk h) hd hdeclares).mpr hr⟩

theorem Nearest.unique {name : String} {s owner owner' : Site} (h : Nearest name s owner)
    (h' : Nearest name s owner') : owner = owner' :=
  Option.some.inj ((declaring?_eq_some_iff.mpr h).symm.trans (declaring?_eq_some_iff.mpr h'))

theorem isRebindable_of_fixed {program : Node} {start owner : Site} (h : start ∈ walk program)
    {name : String} (hnear : Nearest name start owner)
    (hfixed : ∀ d ∈ owner.declarations, d.declares name → d.IsFixed) :
    start.isRebindable name = false := by
  rw [← Bool.not_eq_true, isRebindable_iff h]
  rintro ⟨owner', hnear', d, hd, hr⟩
  obtain rfl := hnear.unique hnear'
  exact (hfixed d hd hr.declares).not_rebinds hr

/-- What an assignment or an update writes to, and where the look-up of it starts. -/
inductive Writes : Site → Node → Site → Prop
  | assignment {s start : Site} {target : Node} {operator : String} :
      s.label = .assignment operator → s.left? = some target → s.parent? = some start →
      Writes s target start
  | update {s : Site} {target : Node} {operator : UpdateOperator} {leading : Bool} :
      s.label = .update operator leading → s.node.child? .argument = some target →
      Writes s target s

theorem base?_of_identifier? {n : Node} {name : String} (h : n.identifier? = some name) :
    n.base? = some name := by
  obtain ⟨l, e, cs⟩ := n
  cases l with
  | identifier _ => exact h
  | _ => cases h

theorem isLocal_of_identifier? (o : Options) {target : Node} {name : String} (start : Site)
    (h : target.identifier? = some name) :
    Rule.isLocal o (some target) (some start) = start.isRebindable name := by
  simp [Rule.isLocal, h, Target.of, Target.isRebindable, Target.holds, base?_of_identifier? h]

/-- A write whose target is not accepted as local is a violation, unless it is an exempt
assignment. -/
theorem Writes.violates {o : Options} {s start : Site} {target : Node}
    (h : Writes s target start) (hlocal : Rule.isLocal o (some target) (some start) = false) :
    Rule.noMutation.Violates o s ∨
      (∃ operator, s.label = .assignment operator) ∧ s.isExempt o = true := by
  cases h with
  | assignment hl ht hp =>
    cases he : s.isExempt o with
    | true => exact .inr ⟨⟨_, hl⟩, rfl⟩
    | false =>
      left
      simp only [Rule.Violates, hl, ht, hp]
      exact ⟨he, hlocal⟩
  | update hl ht =>
    left
    simp only [Rule.Violates, hl, ht]
    exact hlocal

end Site

open Site

/-- Looked up from a site of a program, the variable behind a target is rebindable exactly when the
nearest node that declares it has a declaration that lets it be assigned again. So a bare name that
is nowhere else but `const`, or `var` outside of a header, where it is nearest declared is not
accepted as a local target: writing it is a violation, unless it is an exempt assignment. -/
theorem target_isRebindable_iff {program : Node} {start : Site} (h : start ∈ walk program)
    (target : Option Node) :
    ((Target.of target (some start)).isRebindable = true ↔
      ∃ name, target.bind Node.base? = some name ∧ ∃ owner, Nearest name start owner ∧
        ∃ d ∈ owner.declarations, Rebinds name d) ∧
    ∀ (s : Site) (written : Node) (name : String) (owner : Site), Writes s written start →
      written.identifier? = some name → Nearest name start owner →
      (∀ d ∈ owner.declarations, d.declares name → d.IsFixed) → ∀ o : Options,
        Rule.isLocal o (some written) (some start) = false ∧
          (Rule.noMutation.Violates o s ∨
            (∃ operator, s.label = .assignment operator) ∧ s.isExempt o = true) := by
  constructor
  · rw [Target.isRebindable, Target.holds, Target.of]
    cases hb : target.bind Node.base? with
    | none => simp
    | some name => simp [isRebindable_iff h]
  · intro s written name owner hwrites hname hnear hfixed o
    have hlocal : Rule.isLocal o (some written) (some start) = false := by
      rw [isLocal_of_identifier? o start hname]
      exact isRebindable_of_fixed h hnear hfixed
    exact ⟨hlocal, hwrites.violates hlocal⟩

namespace Counter

def pattern : Node :=
  .mk .objectPattern .origin
    [(.properties, .mk (.property false true) .origin [(.key, .ofName "x"), (.value, .ofName "x")])]

def letX : Node :=
  .mk (.variableDeclaration "let") .origin
    [(.declarations, .mk .variableDeclarator .origin
      [(.id, pattern), (.init, .mk .objectExpression .origin [])])]

def constY : Node :=
  .mk (.variableDeclaration "const") .origin
    [(.declarations, .mk .variableDeclarator .origin
      [(.id, .ofName "y"), (.init, .mk (.literal "1") .origin [])])]

def increment : Node := .mk (.update .increment false) .origin [(.argument, .ofName "y")]

def statement : Node := .mk .expressionStatement .origin [(.expression, increment)]

/-- The program `let {x} = {}; const y = 1; y++`. -/
def program : Node :=
  .mk .program .origin [(.body, letX), (.body, constY), (.body, statement)]

def incrementSite : Site :=
  ((root program).descend 2 .body statement).descend 0 .expression increment

end Counter

open Counter in
/-- The destructured `x` may be assigned again, and `y++` is a violation. -/
theorem counter_rebindings :
    incrementSite ∈ walk program ∧
    (Target.of (some (.ofName "x")) (some incrementSite)).isRebindable = true ∧
    (∃ owner, Nearest "x" incrementSite owner ∧ ∃ d ∈ owner.declarations, Rebinds "x" d) ∧
    Nearest "y" incrementSite (root program) ∧
    (∀ d ∈ (root program).declarations, d.declares "y" → d.IsFixed) ∧
    Rule.noMutation.Violates {} incrementSite := by
  have hsite : incrementSite ∈ walk program :=
    mem_walk.mpr ((Under.refl.child (mem_children.mpr ⟨2, _, _, rfl, rfl⟩)).child
      (mem_children.mpr ⟨0, _, _, rfl, rfl⟩))
  have hx : (Target.of (some (.ofName "x")) (some incrementSite)).isRebindable = true := by
    decide +kernel
  obtain ⟨hiff, hfixed⟩ := target_isRebindable_iff hsite (some (.ofName "x"))
  obtain ⟨name, hname, hrebinds⟩ := hiff.mp hx
  obtain rfl : name = "x" := (Option.some.inj hname).symm
  have hnear : Nearest "y" incrementSite (root program) :=
    declaring?_eq_some_iff.mp (by rfl)
  have honly : ∀ d ∈ (root program).declarations, d.declares "y" → d.IsFixed := by
    intro d hd hdeclares
    have hd' : d ∈ (root program).declarationsOf "y" := mem_declarationsOf.mpr ⟨hd, hdeclares⟩
    have hone : (root program).declarationsOf "y" =
      [(root program).descend 1 .body constY] := by rfl
    rw [hone, List.mem_singleton] at hd'
    exact .inl (hd' ▸ rfl)
  have hviolates := (hfixed incrementSite _ "y" _ (.update rfl rfl) rfl hnear honly {}).2
  exact ⟨hsite, hx, hrebinds, hnear, honly,
    hviolates.resolve_right fun ⟨⟨_, hl⟩, _⟩ => by cases hl⟩

end MutationLint
