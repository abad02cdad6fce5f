import Mathlib.Data.List.Forall2
import MutationLint.Proofs.Exemption.Chains
import MutationLint.Proofs.Scope.Replacement

/-! Keys of computed member accesses. The tests for exemptions read the name of a key at five
places: as `exports` of `module`, as `prototype` of a bare name, as the property and as the object
of an exception, and as the name of a reducer. Only for the object of an exception they ask whether
the access is computed, and a computed one has no name. So a computed key may be replaced, by
another computed key or by one that is not computed, as long as those places do not tell the two
apart. -/

namespace MutationLint

section
variable {α β γ : Type}

theorem map_eq_of_rel {R : α → β → Prop} {f : α → γ} {g : β → γ} {x : Option α} {y : Option β}
    (h : Option.Rel R x y) (hfg : ∀ a b, R a b → g b = f a) : y.map g = x.map f := by
  cases h with
  | none => rfl
  | some hab => exact congrArg some (hfg _ _ hab)

theorem bind_eq_of_rel {R : α → β → Prop} {f : α → Option γ} {g : β → Option γ} {x : Option α}
    {y : Option β} (h : Option.Rel R x y) (hfg : ∀ a b, R a b → g b = f a) :
    y.bind g = x.bind f := by
  cases h with
  | none => rfl
  | some hab => exact hfg _ _ hab

theorem rel_bind {δ : Type} {R : α → β → Prop} {Q : γ → δ → Prop} {f : α → Option γ}
    {g : β → Option δ} {x : Option α} {y : Option β} (h : Option.Rel R x y)
    (hfg : ∀ a b, R a b → Option.Rel Q (f a) (g b)) : Option.Rel Q (x.bind f) (y.bind g) := by
  cases h with
  | none => exact .none
  | some hab => exact hfg _ _ hab

theorem any_eq_of_rel {R : α → β → Prop} {p : α → Bool} {q : β → Bool} {x : Option α}
    {y : Option β} (h : Option.Rel R x y) (hpq : ∀ a b, R a b → q b = p a) :
    y.any q = x.any p := by
  cases h with
  | none => rfl
  | some hab => exact hpq _ _ hab

theorem any_eq_of_forall₂ {R : α → β → Prop} {p : α → Bool} {q : β → Bool} {xs : List α}
    {ys : List β} (h : List.Forall₂ R xs ys) (hpq : ∀ a b, R a b → q b = p a) :
    ys.any q = xs.any p := by
  induction h with
  | nil => rfl
  | cons hab _ ih => rw [List.any_cons, List.any_cons, hpq _ _ hab, ih]

theorem exists_getElem?_of_forall₂ {R : α → β → Prop} {xs : List α} {ys : List β}
    (h : List.Forall₂ R xs ys) {i : Nat} {a : α} (hi : xs[i]? = some a) :
    ∃ b, ys[i]? = some b ∧ R a b := by
  induction h generalizing i with
  | nil => cases hi
  | @cons x y _ _ hab _ ih =>
    cases i with
    | zero =>
      obtain rfl : x = a := by simpa using hi
      exact ⟨y, rfl, hab⟩
    | succ i => exact ih (by simpa using hi)

theorem forall₂_set {R : α → α → Prop} (hrefl : ∀ a, R a a) {xs : List α} {i : Nat} {a b : α}
    (h : xs[i]? = some a) (hab : R a b) : List.Forall₂ R xs (xs.set i b) := by
  induction xs generalizing i with
  | nil => cases h
  | cons x rest ih =>
    cases i with
    | zero =>
      obtain rfl : x = a := by simpa using h
      exact .cons hab (List.forall₂_same.mpr fun x _ => hrefl x)
    | succ i => exact .cons (hrefl x) (ih (by simpa using h))

end

namespace Node

/-! ### Another key -/

def renameKey (name : String) (c : Role × Node) : Role × Node :=
  if c.1 = .property ∧ c.2.identifier?.isSome = true then (c.1, c.2.withLabel (.identifier name))
  else c

def withKey (n : Node) (computed : Bool) (name : String) : Node :=
  .mk (match n.label with
    | .member _ optional => .member computed optional
    | l => l) n.extent (n.children.map (renameKey name))

def isReducer (reducers : List Text) (callee : Node) : Bool :=
  callee.calleeName?.any fun name => reducers.contains (Text.ofString name)

/-- As targets, the member access and the one with another key, computed or not, are not told
apart. -/
structure Interchangeable (o : Options) (n : Node) (name : String) (computed : Bool)
    (other : String) : Prop where
  exports : (n.child? .object).bind identifier? = some "module" →
    (name = "exports" ↔ other = "exports")
  prototype : ((n.child? .object).bind identifier?).isSome = true →
    (name = "prototype" ↔ other = "prototype")
  exceptions : ∀ p ∈ o.exceptions,
    Pattern.allows p.object ((n.child? .object).bind objectName?) = true →
      (p.property = some (Text.ofString name) ↔ p.property = some (Text.ofString other))
  /-- Only a key that is not computed names an object. -/
  object : computed = false → ∀ p ∈ o.exceptions, p.object ≠ some (Text.ofString other)

/-- The second node is the first with at most one computed key, somewhere in it, replaced by an
interchangeable one. -/
inductive Rekeyed (o : Options) : Node → Node → Prop
  | refl (n : Node) : Rekeyed o n n
  | key {n key : Node} {optional computed : Bool} {name other : String} :
      n.label = .member true optional → n.child? .property = some key →
      key.label = .identifier name → n.Interchangeable o name computed other →
      Rekeyed o n (n.withKey computed other)
  | inside {n c c' : Node} {i : Nat} {role : Role} : n.children[i]? = some (role, c) →
      Rekeyed o c c' → (role = .callee → c'.isReducer o.reducers = c.isReducer o.reducers) →
      Rekeyed o n (Step.put ⟨n, role, i⟩ c')

/-- The nodes at one place of two programs of which one is the other with a key replaced. -/
inductive Counterpart (o : Options) : Node → Node → Prop
  | rekeyed {n n' : Node} : Rekeyed o n n' → Counterpart o n n'
  | key {n : Node} {name : String} (other : String) : n.label = .identifier name →
      Counterpart o n (n.withLabel (.identifier other))

theorem child?_eq_head? (n : Node) (role : Role) : n.child? role = (n.childrenIn role).head? := by
  unfold child? childrenIn
  induction n.children with
  | nil => rfl
  | cons c rest ih =>
    by_cases hc : c.1 = role
    · simp [hc]
    · rw [List.find?_cons_of_neg (by simpa using hc), List.filterMap_cons, if_neg hc]
      exact ih

theorem forall₂_childrenIn {R : Node → Node → Prop} {n n' : Node} (role : Role)
    (h : List.Forall₂ (fun x y => x.1 = y.1 ∧ (x.1 = role → R x.2 y.2)) n.children n'.children) :
    List.Forall₂ R (n.childrenIn role) (n'.childrenIn role) := by
  unfold childrenIn
  refine List.rel_filterMap ?_ h
  rintro ⟨r, c⟩ ⟨r', c'⟩ ⟨hrole, hc⟩
  obtain rfl : r = r' := hrole
  by_cases hr : r = role
  · simpa [hr] using Option.Rel.some (hc hr)
  · simp [hr]

theorem rel_child? {R : Node → Node → Prop} {n n' : Node} {role : Role}
    (h : List.Forall₂ R (n.childrenIn role) (n'.childrenIn role)) :
    Option.Rel R (n.child? role) (n'.child? role) := by
  rw [child?_eq_head?, child?_eq_head?]
  generalize n.childrenIn role = xs, n'.childrenIn role = ys at h
  cases h with
  | nil => exact .none
  | cons hab _ => exact .some hab

/-! ### What replacing a key does to a node -/

/-- The key that is replaced is further down: the label is the same and children correspond. -/
structure Follows (o : Options) (n n' : Node) : Prop where
  label : n'.label = n.label
  childrenIn : ∀ role, List.Forall₂ (Rekeyed o) (n.childrenIn role) (n'.childrenIn role)

theorem follows_put {o : Options} {n c c' : Node} {i : Nat} {role : Role}
    (hi : n.children[i]? = some (role, c)) (hc : Rekeyed o c c') :
    Follows o n (Step.put ⟨n, role, i⟩ c') := by
  refine ⟨rfl, fun role => forall₂_childrenIn role ?_⟩
  exact forall₂_set (fun c => ⟨rfl, fun _ => .refl c.2⟩) hi ⟨rfl, fun _ => hc⟩

inductive Swapped (o : Options) (n n' : Node) : Prop
  | mk {optional computed : Bool} {name other : String} : n.label = .member true optional →
      n'.label = .member computed optional →
      (∀ role, role ≠ .property → n'.childrenIn role = n.childrenIn role) →
      (n.child? .property).bind identifier? = some name →
      (n'.child? .property).bind identifier? = some other →
      n.Interchangeable o name computed other → Swapped o n n'

@[simp] theorem fst_renameKey (name : String) (c : Role × Node) : (renameKey name c).1 = c.1 := by
  unfold renameKey
  split_ifs <;> rfl

theorem renameKey_of_ne {name : String} {c : Role × Node} (h : c.1 ≠ .property) :
    renameKey name c = c := if_neg fun hc => h hc.1

theorem label_withKey {n : Node} {old computed optional : Bool} {name : String}
    (h : n.label = .member old optional) :
    (n.withKey computed name).label = .member computed optional := by
  simp [withKey, h]

theorem childrenIn_withKey {n : Node} {computed : Bool} {name : String} {role : Role}
    (h : role ≠ .property) : (n.withKey computed name).childrenIn role = n.childrenIn role := by
  unfold withKey childrenIn
  rw [children_mk, List.filterMap_map]
  congr 1
  funext c
  rw [Function.comp_apply, fst_renameKey]
  split_ifs with hc
  · rw [renameKey_of_ne (hc ▸ h)]
  · rfl

theorem property_withKey {n key : Node} {computed : Bool} {name other : String}
    (h : n.child? .property = some key) (hkey : key.label = .identifier name) :
    (n.withKey computed other).child? .property = some (key.withLabel (.identifier other)) := by
  obtain ⟨c, hc, rfl⟩ := Option.map_eq_some_iff.mp h
  have hrole : c.1 = .property := by simpa using List.find?_some hc
  have hfind : (fun c : Role × Node => c.1 == .property) ∘ renameKey other =
      fun c => c.1 == .property := by
    funext c
    rw [Function.comp_apply, fst_renameKey]
  rw [child?, withKey, children_mk, List.find?_map, hfind, hc]
  simp [renameKey, hrole, identifier?, hkey]

theorem Rekeyed.cases {o : Options} {n n' : Node} (h : Rekeyed o n n') :
    Follows o n n' ∨ Swapped o n n' := by
  cases h with
  | refl => exact .inl ⟨rfl, fun role => List.forall₂_same.mpr fun c _ => .refl c⟩
  | key hl hkey hname halike =>
    refine .inr (.mk hl (label_withKey hl) (fun role => childrenIn_withKey) ?_ ?_ halike)
    · simp [hkey, identifier?, hname]
    · rw [property_withKey hkey hname]
      rfl
  | inside hi hc _ => exact .inl (follows_put hi hc)

namespace Rekeyed

variable {o : Options} {n n' : Node}

theorem label_congr {β : Type} {f : Label → β} (h : Rekeyed o n n')
    (hf : ∀ c c' optional, f (.member c optional) = f (.member c' optional)) :
    f n'.label = f n.label := by
  rcases h.cases with hfollows | ⟨hl, hl', -⟩
  · rw [hfollows.label]
  · rw [hl, hl']
    exact hf _ _ _

theorem childrenIn (h : Rekeyed o n n') (role : Role) (hrole : role ≠ .property) :
    List.Forall₂ (Rekeyed o) (n.childrenIn role) (n'.childrenIn role) := by
  rcases h.cases with hfollows | ⟨-, -, hothers, -⟩
  · exact hfollows.childrenIn role
  · rw [hothers role hrole]
    exact List.forall₂_same.mpr fun c _ => .refl c

theorem child? (h : Rekeyed o n n') (role : Role) (hrole : role ≠ .property) :
    Option.Rel (Rekeyed o) (n.child? role) (n'.child? role) := rel_child? (h.childrenIn role hrole)

theorem isMember (h : Rekeyed o n n') : n'.isMember = n.isMember := by
  rcases h.cases with hfollows | ⟨hl, hl', -⟩
  · unfold Node.isMember
    rw [hfollows.label]
  · simp [Node.isMember, hl, hl']

theorem identifier? (h : Rekeyed o n n') : n'.identifier? = n.identifier? := by
  rcases h.cases with hfollows | ⟨hl, hl', -⟩
  · unfold Node.identifier?
    rw [hfollows.label]
  · simp [Node.identifier?, hl, hl']

theorem bind_identifier? {n? n'? : Option Node} (h : Option.Rel (Rekeyed o) n? n'?) :
    n'?.bind Node.identifier? = n?.bind Node.identifier? :=
  bind_eq_of_rel h fun _ _ h => h.identifier?

theorem name? (h : Rekeyed o n n') : n'.name? = n.name? := by
  rcases h.cases with hfollows | ⟨hl, hl', -⟩
  · have hinner := bind_identifier? (rel_child? (hfollows.childrenIn .expression))
    simp only [Node.name?, hfollows.label, hinner, h.identifier?]
  · simp [Node.name?, hl, hl', Node.identifier?]

/-! ### Object chains -/

theorem object {m : Node} (h : Rekeyed o n n') (hm : n.child? .object = some m) :
    ∃ m', n'.child? .object = some m' ∧ Rekeyed o m m' := by
  have hrel := h.child? .object (by decide)
  rw [hm] at hrel
  generalize n'.child? .object = m'? at hrel
  cases hrel with
  | some hmm => exact ⟨_, rfl, hmm⟩

theorem isRoot (h : Rekeyed o n n') (hr : n.IsRoot) : n'.IsRoot := by
  intro hn'
  have hrel := h.child? .object (by decide)
  rw [hr (h.isMember ▸ hn')] at hrel
  generalize n'.child? .object = m'? at hrel ⊢
  cases hrel with
  | none => rfl

theorem leftMost (h : Rekeyed o n n') : Rekeyed o n.leftMost n'.leftMost := by
  induction n using chain_induction generalizing n' with
  | root n hr => rwa [leftMost_of_no_object hr, leftMost_of_no_object (h.isRoot hr)]
  | member n m hn hm ih =>
    obtain ⟨m', hm', hmm⟩ := h.object hm
    rw [leftMost_of_object hn hm, leftMost_of_object (h.isMember.trans hn) hm']
    exact ih hmm

theorem base? (h : Rekeyed o n n') : n'.base? = n.base? := h.leftMost.name?

theorem chain (h : Rekeyed o n n') : List.Forall₂ (Rekeyed o) n.chain n'.chain := by
  induction n using chain_induction generalizing n' with
  | root n hr =>
    rw [chain_of_isRoot hr, chain_of_isRoot (h.isRoot hr)]
    exact .cons h .nil
  | member n m hn hm ih =>
    obtain ⟨m', hm', hmm⟩ := h.object hm
    rw [chain_of_object hn hm, chain_of_object (h.isMember.trans hn) hm']
    exact .cons h (ih hmm)

end Rekeyed

/-! ### Exports and prototypes -/

theorem getD_isNamed (n? : Option Node) (name : String) :
    (n?.map (·.isNamed name)).getD false = decide (n?.bind identifier? = some name) := by
  cases n? with
  | none => simp
  | some n => simp [isNamed, identifier?_eq_some_iff]

theorem isPrototype_eq (n : Node) : n.isPrototype = (n.isMember &&
    ((n.child? .object).map fun owner => owner.isMember &&
      ((owner.child? .object).bind identifier?).isSome &&
      decide ((owner.child? .property).bind identifier? = some "prototype")).getD false) := by
  unfold isPrototype
  cases n.child? .object with
  | none => rfl
  | some owner => rw [Option.map_some, Option.getD_some, ← getD_isNamed]

namespace Rekeyed

variable {o : Options} {n n' : Node}

theorem isModuleExports (h : Rekeyed o n n') : n'.isModuleExports = n.isModuleExports := by
  have hobject := bind_identifier? (h.child? .object (by decide))
  simp only [Node.isModuleExports, getD_isNamed, h.isMember, hobject]
  rcases h.cases with hfollows | ⟨-, -, -, hname, hother, halike⟩
  · rw [bind_identifier? (rel_child? (hfollows.childrenIn .property))]
  · rw [hname, hother]
    by_cases hmodule : (n.child? .object).bind Node.identifier? = some "module"
    · simp [halike.exports hmodule]
    · simp [hmodule]

theorem reachesExports (h : Rekeyed o n n') : n'.reachesExports = n.reachesExports := by
  rw [reachesExports_eq_any, reachesExports_eq_any]
  refine any_eq_of_forall₂ h.chain fun m m' hm => ?_
  have hexports : m'.isExports = m.isExports :=
    hm.label_congr (f := fun l => decide (l = .identifier "exports")) fun _ _ _ => by simp
  rw [hexports, hm.isModuleExports]

theorem isPrototype (h : Rekeyed o n n') : n'.isPrototype = n.isPrototype := by
  rw [isPrototype_eq, isPrototype_eq, h.isMember]
  congr 2
  refine map_eq_of_rel (h.child? .object (by decide)) fun owner owner' howner => ?_
  have hobject := bind_identifier? (howner.child? .object (by decide))
  rw [howner.isMember, hobject]
  rcases howner.cases with hfollows | ⟨-, -, -, hname, hother, halike⟩
  · rw [bind_identifier? (rel_child? (hfollows.childrenIn .property))]
  · rw [hname, hother]
    by_cases hbare : ((owner.child? .object).bind Node.identifier?).isSome = true
    · simp [halike.prototype hbare]
    · simp [hbare]

end Rekeyed
end Node

/-! ### Exceptions -/

theorem Options.mem_patterns {o : Options} {p : Pattern} (hp : p ∈ o.patterns) :
    p ∈ o.exceptions ∨ p = .ofThis := by
  unfold Options.patterns at hp
  split_ifs at hp
  · simpa using hp
  · exact .inl hp

namespace Pattern

theorem allows_some_iff {side : Option Text} {name : String} :
    allows side (some name) = true ↔ side = none ∨ side = some (Text.ofString name) := by
  cases side with
  | none => simp [allows]
  | some wanted =>
    rw [allows, Option.map_some, beq_iff_eq, eq_comm]
    simp

end Pattern

namespace Node.Rekeyed

variable {o : Options} {n n' : Node} {p : Pattern}

theorem allows_objectName? (h : Rekeyed o n n') (hp : p ∈ o.patterns) :
    Pattern.allows p.object n'.objectName? = Pattern.allows p.object n.objectName? := by
  rcases h.cases with hfollows | ⟨hl, hl', -, -, hother, halike⟩
  · have hproperty := bind_identifier? (rel_child? (hfollows.childrenIn .property))
    simp only [objectName?, hfollows.label, hproperty]
  · rename_i computed name other
    cases computed with
    | true => simp only [objectName?, hl, hl']
    | false =>
      -- the old key names no object, and the new one none that an exception asks for
      have hnot : p.object ≠ some (Text.ofString other) := by
        rcases Options.mem_patterns hp with hp | rfl
        · exact halike.object rfl p hp
        · simp [Pattern.ofThis]
      simp only [objectName?, hl, hl', hother]
      cases hobject : p.object with
      | none => rfl
      | some wanted =>
        have hne : Text.ofString other ≠ wanted := fun he => hnot (hobject.trans (by rw [he]))
        simp [Pattern.allows, hne]

theorem matchesMember (h : Rekeyed o n n') (hp : p ∈ o.patterns) :
    p.matchesMember n' = p.matchesMember n := by
  have hobject := h.child? .object (by decide)
  have hthis : ((n'.child? .object).map (·.label == .thisExpression)).getD false =
      ((n.child? .object).map (·.label == .thisExpression)).getD false := by
    congr 1
    refine map_eq_of_rel hobject fun m m' hm => ?_
    exact hm.label_congr (f := fun l => l == .thisExpression) fun _ _ _ => rfl
  have hallows : Pattern.allows p.object ((n'.child? .object).bind objectName?) =
      Pattern.allows p.object ((n.child? .object).bind objectName?) := by
    generalize n.child? .object = m?, n'.child? .object = m'? at hobject
    cases hobject with
    | none => rfl
    | some hm => exact hm.allows_objectName? hp
  unfold Pattern.matchesMember
  rw [h.isMember, hthis, hallows]
  rcases h.cases with hfollows | ⟨-, -, -, hname, hother, halike⟩
  · rw [bind_identifier? (rel_child? (hfollows.childrenIn .property))]
  · rw [hname, hother]
    rcases Options.mem_patterns hp with hp | rfl
    · by_cases hallowed : Pattern.allows p.object ((n.child? .object).bind objectName?) = true
      · have hproperty := halike.exceptions p hp hallowed
        congr 3
        rw [Bool.eq_iff_iff, Pattern.allows_some_iff, Pattern.allows_some_iff, hproperty]
      · simp [hallowed]
    · rfl

theorem anyMatches (h : Rekeyed o n n') :
    Pattern.anyMatches o.patterns n' = Pattern.anyMatches o.patterns n := by
  rw [Pattern.anyMatches_eq_any, Pattern.anyMatches_eq_any]
  refine any_eq_of_forall₂ h.chain fun m m' hm => ?_
  refine any_eq_of_forall₂ (R := fun p q => p = q ∧ p ∈ o.patterns) ?_ ?_
  · exact List.forall₂_same.mpr fun p hp => ⟨rfl, hp⟩
  · rintro p _ ⟨rfl, hp⟩
    exact hm.matchesMember hp

/-! ### Functions and callees -/

theorem declaresFunction (h : Rekeyed o n n') (name : String) :
    n'.declaresFunction name = n.declaresFunction name := by
  have hd {d d' : Node} (hd : Rekeyed o d d') :
      (d'.label.isDeclaration && (d'.child? .id).bind Node.name? == some name) =
        (d.label.isDeclaration && (d.child? .id).bind Node.name? == some name) := by
    rw [hd.label_congr (f := Label.isDeclaration) fun _ _ _ => rfl,
      bind_eq_of_rel (hd.child? .id (by decide)) fun _ _ h => h.name?]
  have hdeclaration := h.child? .declaration (by decide)
  unfold Node.declaresFunction
  rw [h.label_congr (f := Label.isExport) fun _ _ _ => rfl]
  cases n.label.isExport with
  | false => exact hd h
  | true =>
    rw [if_pos rfl, if_pos rfl]
    generalize n.child? .declaration = d?, n'.child? .declaration = d'? at hdeclaration
    cases hdeclaration with
    | none => rfl
    | some h => exact hd h

theorem statements (h : Rekeyed o n n') (name : String) :
    n'.statements.any (·.declaresFunction name) = n.statements.any (·.declaresFunction name) := by
  unfold Node.statements
  rw [h.label_congr (f := Label.isStatementList) fun _ _ _ => rfl]
  cases n.label.isStatementList with
  | false => rfl
  | true =>
    exact any_eq_of_forall₂ (h.childrenIn .body (by decide)) fun m m' hm => hm.declaresFunction name

theorem callee (h : Rekeyed o n n') :
    Option.Rel (fun c c' => c'.isReducer o.reducers = c.isReducer o.reducers)
      (n.child? .callee) (n'.child? .callee) := by
  refine rel_child? ?_
  cases h with
  | refl => exact List.forall₂_same.mpr fun _ _ => rfl
  | key =>
    rw [childrenIn_withKey (by decide)]
    exact List.forall₂_same.mpr fun _ _ => rfl
  | inside hi _ hcallee =>
    exact forall₂_childrenIn .callee (forall₂_set (fun _ => ⟨rfl, fun _ => rfl⟩) hi ⟨rfl, hcallee⟩)

end Node.Rekeyed

namespace Node

variable {o : Options} {n n' : Node}

theorem Follows.isReducer (h : Follows o n n') :
    n'.isReducer o.reducers = n.isReducer o.reducers := by
  have hproperty := Rekeyed.bind_identifier? (rel_child? (h.childrenIn .property))
  simp only [Node.isReducer, calleeName?, h.label, hproperty]

/-- As a callee, a member access is told by the name of its key. -/
theorem isReducer_of_key {reducers : List Text} {key : Node} {computed optional : Bool}
    {name : String} (hl : n.label = .member computed optional)
    (hkey : n.child? .property = some key) (hname : key.label = .identifier name) :
    n.isReducer reducers = reducers.contains (Text.ofString name) := by
  simp [isReducer, calleeName?, hl, hkey, identifier?, hname]

end Node
end MutationLint
