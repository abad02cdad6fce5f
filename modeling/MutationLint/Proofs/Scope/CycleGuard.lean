import Mathlib.Order.Nat
import Mathlib.Data.Nat.Find
import MutationLint.Proofs.Scope.Derivation
import MutationLint.Scope.Lookup

/-! The guard against circles changes no answer. While a search follows a derivation of least
height, every binding it has under consideration needs a higher one, so the guard is never in its
way; and without repetition a search cannot go deeper than there are bindings. -/

namespace MutationLint

namespace Site

theorem freshWithin_succ (depth : Nat) (resolving : List Binding) (name : String) (s : Site) :
    freshWithin (depth + 1) resolving name s = anyBinding name s fun owner a =>
      !resolving.contains (name, a.address) && initIsFresh
        (fun other => freshWithin depth ((name, a.address) :: resolving) other owner)
        (a.node.child? .init) := rfl

theorem freshWithin_succ_iff {depth : Nat} {resolving : List Binding} {name : String} {s : Site} :
    freshWithin (depth + 1) resolving name s = true ↔ ∃ owner d a, Nearest name s owner ∧
      d ∈ owner.declarations ∧ d.declarator? name = some a ∧ (name, a.address) ∉ resolving ∧
      initIsFresh (fun other => freshWithin depth ((name, a.address) :: resolving) other owner)
        (a.node.child? .init) = true := by
  rw [freshWithin_succ, anyBinding_iff]
  simp only [Bool.and_eq_true, Bool.not_eq_true', List.contains_eq_mem, decide_eq_false_iff_not]

/-- A guarded search finds nothing that has no derivation. -/
theorem freshAt_of_freshWithin {depth : Nat} : ∀ {resolving : List Binding} {name : String}
    {s : Site}, freshWithin depth resolving name s = true → freshAt depth name s = true := by
  induction depth with
  | zero => intro resolving name s h; cases h
  | succ depth ih =>
    intro resolving name s h
    obtain ⟨owner, d, a, ho, hd, ha, -, h⟩ := freshWithin_succ_iff.mp h
    exact freshAt_succ_iff.mpr ⟨owner, d, a, ho, hd, ha, initIsFresh_mono (fun _ => ih) h⟩

/-- The initial value of a declarator is fresh by derivations of at most the given height. -/
def InitFreshAt (height : Nat) (a : Site) : Prop :=
  ∃ d owner, a.parent? = some d ∧ d.parent? = some owner ∧
    initIsFresh (fun name => freshAt height name owner) (a.node.child? .init) = true

theorem initFreshAt_iff {height : Nat} {owner d a : Site} (ha : a ∈ d.children)
    (hd : d.parent? = some owner) : InitFreshAt height a ↔
      initIsFresh (fun name => freshAt height name owner) (a.node.child? .init) = true := by
  constructor
  · rintro ⟨d', owner', ha', hd', h⟩
    cases (parent?_of_mem_children ha).symm.trans ha'
    cases hd.symm.trans hd'
    exact h
  · exact fun h => ⟨d, owner, parent?_of_mem_children ha, hd, h⟩

theorem InitFreshAt.exists_least {height : Nat} {a : Site} (h : InitFreshAt height a) :
    ∃ least ≤ height, InitFreshAt least a ∧ ∀ lower < least, ¬ InitFreshAt lower a := by
  classical
  have hex : ∃ m, InitFreshAt m a := ⟨height, h⟩
  exact ⟨Nat.find hex, Nat.find_min' hex h, Nat.find_spec hex, fun _ => Nat.find_min hex⟩

theorem mem_bindings {program : Node} {d a : Site} {name : String} (hd : d ∈ walk program)
    (ha : d.declarator? name = some a) : (name, a.address) ∈ bindings program := by
  rw [declarator?] at ha
  have hb := List.find?_some ha
  refine List.mem_flatMap.mpr ⟨d, hd, List.mem_flatMap.mpr ⟨a, List.mem_of_find?_eq_some ha, ?_⟩⟩
  exact List.mem_map.mpr ⟨name, List.contains_iff_mem.mp hb, rfl⟩

/-- What holds of the bindings under consideration while a search follows a derivation of the given
height: they are bindings of the program, none twice, and none has a fresh value by a lower one. -/
structure Trail (program : Node) (height : Nat) (resolving : List Binding) : Prop where
  nodup : resolving.Nodup
  bound : resolving ⊆ bindings program
  unsettled : ∀ name a, a ∈ walk program → (name, a.address) ∈ resolving →
    ∀ lower < height, ¬ InitFreshAt lower a

theorem Trail.nil (program : Node) (height : Nat) : Trail program height [] :=
  ⟨List.nodup_nil, List.nil_subset _, fun _ _ _ h => absurd h List.not_mem_nil⟩

/-- A binding joins the trail with the least height at which its value is fresh. -/
theorem Trail.cons {program : Node} {height least : Nat} {resolving : List Binding}
    {name : String} {d a : Site} (h : Trail program height resolving) (hle : least ≤ height)
    (hd : d ∈ walk program) (ha : d.declarator? name = some a)
    (hnew : (name, a.address) ∉ resolving) (hmin : ∀ lower < least, ¬ InitFreshAt lower a) :
    Trail program least ((name, a.address) :: resolving) := by
  refine ⟨List.nodup_cons.mpr ⟨hnew, h.nodup⟩,
    List.cons_subset.mpr ⟨mem_bindings hd ha, h.bound⟩, ?_⟩
  intro other b hb hmem lower hl
  rcases List.mem_cons.mp hmem with heq | hmem
  · have haw := mem_walk_of_mem_children hd (mem_children_of_declarator? ha)
    obtain rfl := eq_of_address hb haw (Prod.mk.inj heq).2
    exact hmin lower hl
  · exact h.unsettled other b hb hmem lower (Nat.lt_of_lt_of_le hl hle)

theorem Trail.length_le {program : Node} {height : Nat} {resolving : List Binding}
    (h : Trail program height resolving) : resolving.length ≤ (bindings program).length :=
  List.Nodup.length_le_of_subset h.nodup h.bound

/-- A guarded search that may still go as deep as there are bindings left finds every derivation. -/
theorem freshWithin_of_freshAt {program : Node} (height : Nat) :
    ∀ {depth : Nat} {resolving : List Binding} {name : String} {s : Site}, s ∈ walk program →
      Trail program height resolving → (bindings program).length < resolving.length + depth →
      freshAt height name s = true → freshWithin depth resolving name s = true := by
  induction height using Nat.strongRecOn with
  | _ height ih =>
    intro depth resolving name s hs trail hlen h
    cases height with
    | zero => cases h
    | succ height =>
      obtain ⟨owner, d, a, ho, hd, ha, h⟩ := freshAt_succ_iff.mp h
      have how := ho.mem_walk hs
      have hdw := mem_walk_of_mem_children how (mem_children_of_mem_declarations hd)
      have hac := mem_children_of_declarator? ha
      have hiff {m : Nat} : InitFreshAt m a ↔ _ :=
        initFreshAt_iff hac (parent?_of_mem_declarations hd)
      obtain ⟨least, hle, hleast, hmin⟩ := (hiff.mpr h).exists_least
      -- the binding cannot be on the trail: its value is fresh by a derivation that is low enough
      have hnew : (name, a.address) ∉ resolving := fun hmem =>
        trail.unsettled name a (mem_walk_of_mem_children hdw hac) hmem height
          (Nat.lt_succ_self _) (hiff.mpr h)
      have trail' := trail.cons (Nat.le_succ_of_le hle) hdw ha hnew hmin
      cases depth with
      | zero => have := trail.length_le; omega
      | succ depth =>
        refine freshWithin_succ_iff.mpr ⟨owner, d, a, ho, hd, ha, hnew, ?_⟩
        refine initIsFresh_mono (fun other hother => ?_) (hiff.mp hleast)
        exact ih _ (Nat.lt_succ_of_le hle) how trail'
          (by simp only [List.length_cons]; omega) hother

theorem isFresh_iff_fresh {program : Node} {start : Site} (h : start ∈ walk program)
    (name : String) : start.isFresh name = true ↔ Fresh name start := by
  rw [fresh_iff_exists_freshAt, isFresh]
  constructor
  · exact fun hf => ⟨_, freshAt_of_freshWithin hf⟩
  · rintro ⟨height, hf⟩
    refine freshWithin_of_freshAt height h (Trail.nil program height) ?_ hf
    rw [depth, top_of_mem_walk h]
    simp

theorem declaresFresh_iff {program : Node} {owner d : Site} (hd : d ∈ walk program)
    (hp : d.parent? = some owner) (name : String) : d.declaresFresh name = true ↔
      ∃ a, d.declarator? name = some a ∧ ∃ height, InitFreshAt height a := by
  rw [declaresFresh]
  cases ha : d.declarator? name with
  | none => simp
  | some a =>
    simp only [hp, Option.some.injEq, exists_eq_left']
    have hac := mem_children_of_declarator? ha
    constructor
    · intro h
      refine ⟨d.depth, (initFreshAt_iff hac hp).mpr ?_⟩
      exact initIsFresh_mono (fun _ => freshAt_of_freshWithin) h
    · rintro ⟨height, h⟩
      obtain ⟨least, -, hleast, hmin⟩ := h.exists_least
      refine initIsFresh_mono (fun other hother => ?_) ((initFreshAt_iff hac hp).mp hleast)
      have trail := (Trail.nil program least).cons (Nat.le_refl _) hd ha List.not_mem_nil hmin
      refine freshWithin_of_freshAt least (mem_walk_of_parent? hd hp) trail ?_ hother
      rw [depth, top_of_mem_walk hd, List.length_singleton]
      omega

end Site

open Site

/-- Looked up from a site of a program, the variable behind a target is a fresh local exactly when
its name has a derivation there. -/
theorem target_isFresh_iff_derivation {program : Node} {start : Site} (h : start ∈ walk program)
    (target : Option Node) :
    (Target.of target (some start)).isFresh false = true ↔
      ∃ name, target.bind Node.base? = some name ∧ Fresh name start := by
  rw [Target.isFresh, Bool.false_and, Bool.false_or, Target.holds, Target.of]
  cases hb : target.bind Node.base? with
  | none => simp
  | some name => simp [isFresh_iff_fresh h name]

/-- `var a = b, b = a; var a = {};` refers in a circle, out of which the second `a` leads. -/
def redeclared : Node :=
  .mk .program .origin
    [(.body, .mk (.variableDeclaration "var") .origin
      [(.declarations, .mk .variableDeclarator .origin [(.id, .ofName "a"), (.init, .ofName "b")]),
        (.declarations, .mk .variableDeclarator .origin
          [(.id, .ofName "b"), (.init, .ofName "a")])]),
      (.body, .mk (.variableDeclaration "var") .origin
        [(.declarations, .mk .variableDeclarator .origin
          [(.id, .ofName "a"), (.init, .mk .objectExpression .origin [])])])]

theorem redeclared_derivation : root redeclared ∈ walk redeclared ∧
    (Target.of (some (.ofName "b")) (some (root redeclared))).isFresh false = true ∧
    ∃ name, (some (Node.ofName "b")).bind Node.base? = some name ∧
      Fresh name (root redeclared) :=
  have h : (Target.of (some (.ofName "b")) (some (root redeclared))).isFresh false = true := by
    decide +kernel
  ⟨root_mem_walk _, h, (target_isFresh_iff_derivation (root_mem_walk _) _).mp h⟩

end MutationLint
