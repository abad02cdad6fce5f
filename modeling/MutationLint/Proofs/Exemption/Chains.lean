import MutationLint.Proofs.Node.Casts

/-! Object chains of targets, and the tests that follow them. A chain ends in one node, its root,
which is no member access or one that lacks its object. Whether a target reaches the exports of the
module or is a member of `this` is decided at the root; an exception is looked for all along. -/

namespace MutationLint

namespace Node

/-- The second node is on the object chain of the first. -/
inductive OnChain : Node → Node → Prop
  | here (n : Node) : OnChain n n
  | object {n m k : Node} : n.isMember = true → n.child? .object = some m → OnChain m k →
      OnChain n k

section
variable {n m k : Node}

theorem mem_chain : m ∈ n.chain ↔ OnChain n m := by
  induction n using chain_induction with
  | root n hr =>
    rw [chain_of_isRoot hr, List.mem_singleton]
    constructor
    · rintro rfl
      exact .here m
    · rintro (_ | ⟨hn, ho, -⟩)
      · rfl
      · rw [hr hn] at ho
        cases ho
  | member n o hn ho ih =>
    rw [chain_of_object hn ho, List.mem_cons, ih]
    constructor
    · rintro (rfl | h)
      · exact .here m
      · exact .object hn ho h
    · rintro (_ | ⟨-, ho', h⟩)
      · exact .inl rfl
      · cases ho.symm.trans ho'
        exact .inr h

/-- A chain has one root, its left-most node. -/
theorem onChain_isRoot_iff : OnChain n m ∧ m.IsRoot ↔ m = n.leftMost := by
  rw [← mem_chain]
  induction n using chain_induction with
  | root n hr =>
    rw [chain_of_isRoot hr, List.mem_singleton, leftMost_of_no_object hr]
    constructor
    · exact And.left
    · rintro rfl
      exact ⟨rfl, hr⟩
  | member n o hn ho ih =>
    have hnot : ¬ n.IsRoot := fun hr => by simp [hr hn] at ho
    rw [chain_of_object hn ho, List.mem_cons, leftMost_of_object hn ho, ← ih]
    constructor
    · rintro ⟨rfl | h, hr⟩
      · exact absurd hr hnot
      · exact ⟨h, hr⟩
    · rintro ⟨h, hr⟩
      exact ⟨.inr h, hr⟩

theorem isRoot_of_not_isMember (h : n.isMember = false) : n.IsRoot := fun hn => by simp [h] at hn

theorem isNamed_iff {name : String} : n.isNamed name = true ↔ n.label = .identifier name := by
  simp [isNamed]

theorem isRoot_of_identifier {name : String} (h : n.label = .identifier name) : n.IsRoot :=
  isRoot_of_not_isMember (by simp [isMember, h])

/-! ### Exports -/

theorem isModuleExports_iff (hn : n.isMember = true) (hm : n.child? .object = some m) :
    n.isModuleExports = true ↔ m.label = .identifier "module" ∧
      ∃ key, n.child? .property = some key ∧ key.label = .identifier "exports" := by
  cases hk : n.child? .property <;> simp [isModuleExports, hn, hm, hk, isNamed_iff]

theorem reachesExports_of_isRoot (h : n.IsRoot) :
    n.reachesExports = true ↔ n.label = .identifier "exports" := by
  have hmodule : n.isModuleExports = false := by
    unfold isModuleExports
    by_cases hn : n.isMember = true
    · simp [h hn]
    · simp [hn]
  simp [reachesExports_eq_any, chain_of_isRoot h, hmodule, isExports, isNamed_iff]

theorem reachesExports_of_object (hn : n.isMember = true) (hm : n.child? .object = some m) :
    n.reachesExports = (n.isModuleExports || m.reachesExports) := by
  have hexports : n.isExports = false := by
    obtain ⟨computed, optional, hl⟩ := isMember_iff.mp hn
    simp [isExports, isNamed, hl]
  rw [reachesExports_eq, hexports, hn, hm, Bool.false_or]
  rfl

/-- On the chain of the node, a member access with the key `exports` stands right above the root. -/
def KeyedExports (n root : Node) : Prop :=
  ∃ m key, OnChain n m ∧ m.isMember = true ∧ m.child? .object = some root ∧
    m.child? .property = some key ∧ key.label = .identifier "exports"

theorem not_keyedExports_of_isRoot (h : n.IsRoot) (root : Node) : ¬ n.KeyedExports root := by
  rintro ⟨k, key, hon, hk, hobject, -⟩
  cases hon with
  | here => simp [h hk] at hobject
  | object hn hm _ => simp [h hn] at hm

theorem keyedExports_of_object (hn : n.isMember = true) (hm : n.child? .object = some m)
    (root : Node) : n.KeyedExports root ↔
      (m = root ∧ ∃ key, n.child? .property = some key ∧ key.label = .identifier "exports") ∨
        m.KeyedExports root := by
  constructor
  · rintro ⟨k, key, hon, hk, hobject, hkey, hl⟩
    cases hon with
    | here =>
      cases hm.symm.trans hobject
      exact .inl ⟨rfl, key, hkey, hl⟩
    | object _ hm' hon =>
      cases hm.symm.trans hm'
      exact .inr ⟨k, key, hon, hk, hobject, hkey, hl⟩
  · rintro (⟨rfl, key, hkey, hl⟩ | ⟨k, key, hon, hk⟩)
    · exact ⟨n, key, .here n, hn, hm, hkey, hl⟩
    · exact ⟨k, key, .object hn hm hon, hk⟩

/-- A target reaches the exports of the module exactly when its chain starts from them. -/
theorem reachesExports_iff : n.reachesExports = true ↔
    n.leftMost.label = .identifier "exports" ∨
      n.leftMost.label = .identifier "module" ∧ n.KeyedExports n.leftMost := by
  induction n using chain_induction with
  | root n hr =>
    have hnot := not_keyedExports_of_isRoot hr n.leftMost
    rw [reachesExports_of_isRoot hr, leftMost_of_no_object hr]
    simp [leftMost_of_no_object hr ▸ hnot]
  | member n m hn hm ih =>
    rw [reachesExports_of_object hn hm, Bool.or_eq_true, ih, isModuleExports_iff hn hm,
      leftMost_of_object hn hm, keyedExports_of_object hn hm]
    constructor
    · rintro (⟨hmodule, hkey⟩ | hexports | ⟨hmodule, hkeyed⟩)
      · -- a bare name is the root itself
        have hleft := leftMost_of_no_object (isRoot_of_identifier hmodule)
        exact .inr ⟨by rw [hleft, hmodule], .inl ⟨hleft.symm, hkey⟩⟩
      · exact .inl hexports
      · exact .inr ⟨hmodule, .inr hkeyed⟩
    · rintro (hexports | ⟨hmodule, ⟨hroot, hkey⟩ | hkeyed⟩)
      · exact .inr (.inl hexports)
      · exact .inl ⟨hroot ▸ hmodule, hkey⟩
      · exact .inr (.inr ⟨hmodule, hkeyed⟩)

end

end Node

namespace Pattern

open Node

/-- An exception counts when it matches a member access anywhere on the chain. -/
theorem anyMatches_iff {patterns : List Pattern} {n : Node} : anyMatches patterns n = true ↔
    ∃ p ∈ patterns, ∃ m, OnChain n m ∧ m.isMember = true ∧ p.matchesMember m = true := by
  rw [anyMatches_eq_any, List.any_eq_true]
  constructor
  · rintro ⟨m, hm, h⟩
    obtain ⟨p, hp, hmatch⟩ := List.any_eq_true.mp h
    exact ⟨p, hp, m, mem_chain.mp hm, isMember_of_matchesMember hmatch, hmatch⟩
  · rintro ⟨p, hp, m, hm, -, hmatch⟩
    exact ⟨m, mem_chain.mpr hm, List.any_eq_true.mpr ⟨p, hp, hmatch⟩⟩

theorem matchesMember_ofThis {n m : Node} (hn : n.isMember = true)
    (hm : n.child? .object = some m) :
    ofThis.matchesMember n = true ↔ m.label = .thisExpression := by
  simp [matchesMember, ofThis, hn, hm]

theorem anyMatches_ofThis {n : Node} : anyMatches [.ofThis] n = true ↔
    n.isMember = true ∧ n.leftMost.label = .thisExpression := by
  induction n using chain_induction with
  | root n hr =>
    rw [leftMost_of_no_object hr]
    constructor
    · intro h
      rw [anyMatches_eq_any, chain_of_isRoot hr] at h
      by_cases hn : n.isMember = true
      · simp [matchesMember, ofThis, hr hn] at h
      · simp [matchesMember, hn] at h
    · rintro ⟨hn, hl⟩
      simp [isMember, hl] at hn
  | member n m hn hm ih =>
    rw [anyMatches_of_object hn hm, Bool.or_eq_true, ih, leftMost_of_object hn hm,
      List.any_cons, List.any_nil, Bool.or_false, matchesMember_ofThis hn hm]
    constructor
    · rintro (hthis | ⟨-, hthis⟩)
      · have hroot : m.IsRoot := isRoot_of_not_isMember (by simp [isMember, hthis])
        exact ⟨hn, by rw [leftMost_of_no_object hroot, hthis]⟩
      · exact ⟨hn, hthis⟩
    · rintro ⟨-, hthis⟩
      by_cases ho : m.isMember = true
      · exact .inr ⟨ho, hthis⟩
      · rw [leftMost_of_no_object fun h => absurd h ho] at hthis
        exact .inl hthis

def isTelling (p : Pattern) : Bool := p.this || p.object.isSome || p.property.isSome

theorem not_matchesMember_of_not_isTelling {p : Pattern} (h : p.isTelling = false) (n : Node) :
    p.matchesMember n = false := by
  simp only [isTelling, Bool.or_eq_false_iff] at h
  simp [matchesMember, h.1.1, h.1.2, h.2]

/-- Patterns that name nothing can be left out. -/
theorem anyMatches_filter (patterns : List Pattern) (n : Node) :
    anyMatches (patterns.filter isTelling) n = anyMatches patterns n := by
  rw [anyMatches_eq_any, anyMatches_eq_any]
  congr 1
  funext m
  rw [List.any_filter]
  congr 1
  funext p
  cases h : p.isTelling with
  | true => rfl
  | false => rw [not_matchesMember_of_not_isTelling h, Bool.false_and]

end Pattern

open Node

/-- The walks along an object chain agree on its root. The chain of a target has one root, the
left-most object. The target reaches the exports of the module exactly when the root is `exports`,
or is `module` and the access right above it has the key `exports`; it is a member of `this` exactly
when it is a member access and `this` is the root; and an exception lets it pass exactly when it
matches a member access of the chain, where patterns that name nothing do not count. -/
theorem chain_walks_agree_on_root (t : Node) : ∃ root,
    (∀ n, OnChain t n ∧ n.IsRoot ↔ n = root) ∧ t.leftMost = root ∧
    (t.reachesExports = true ↔ root.label = .identifier "exports" ∨
      root.label = .identifier "module" ∧ t.KeyedExports root) ∧
    (Pattern.anyMatches [.ofThis] t = true ↔
      t.isMember = true ∧ root.label = .thisExpression) ∧
    ∀ patterns, (Pattern.anyMatches patterns t = true ↔ ∃ p ∈ patterns, ∃ m, OnChain t m ∧
        m.isMember = true ∧ p.matchesMember m = true) ∧
      Pattern.anyMatches patterns t = Pattern.anyMatches (patterns.filter Pattern.isTelling) t :=
  ⟨t.leftMost, fun _ => onChain_isRoot_iff, rfl, reachesExports_iff, Pattern.anyMatches_ofThis,
    fun patterns => ⟨Pattern.anyMatches_iff, (Pattern.anyMatches_filter patterns t).symm⟩⟩

end MutationLint
