import MutationLint.Callee
import MutationLint.Proofs.Node.View

/-! Nodes without their places in a source. Nothing that the analysis reads off a node depends on
where in the source it stands. -/

namespace MutationLint

namespace Node

mutual

def bare : Node → Node
  | .mk l _ cs => .mk l .origin (bareAll cs)

def bareAll : List (Role × Node) → List (Role × Node)
  | [] => []
  | (role, n) :: rest => (role, n.bare) :: bareAll rest

end

theorem bareAll_eq_map (cs : List (Role × Node)) :
    bareAll cs = cs.map fun c => (c.1, c.2.bare) := by
  induction cs with
  | nil => rfl
  | cons c rest ih =>
    obtain ⟨role, n⟩ := c
    rw [bareAll, ih]
    rfl

@[simp] theorem label_bare (n : Node) : n.bare.label = n.label := by
  cases n; rfl

theorem children_bare (n : Node) : n.bare.children = n.children.map fun c => (c.1, c.2.bare) := by
  cases n
  exact bareAll_eq_map _

@[simp] theorem child?_bare (n : Node) (role : Role) :
    n.bare.child? role = (n.child? role).map bare := by
  rw [child?, children_bare, List.find?_map, Option.map_map, child?, Option.map_map]
  rfl

@[simp] theorem childrenIn_bare (n : Node) (role : Role) :
    n.bare.childrenIn role = (n.childrenIn role).map bare := by
  rw [childrenIn, children_bare, List.filterMap_map, childrenIn, List.map_filterMap]
  congr 1
  funext c
  by_cases h : c.1 = role <;> simp [h]

theorem bare_bare (n : Node) : n.bare.bare = n.bare := by
  induction hk : n.size using Nat.strongRecOn generalizing n with
  | _ k ih =>
    obtain ⟨l, e, cs⟩ := n
    simp only [bare, bareAll_eq_map, List.map_map]
    congr 1
    refine List.map_congr_left fun c hc => Prod.ext rfl (ih c.2.size ?_ c.2 rfl)
    have := size_le_sizeAll hc
    rw [← hk, size]
    omega

/-- Forgetting extents hides nothing that is read. -/
theorem view_bare : View bare where
  label := label_bare
  child? n role _ := child?_bare n role
  childrenIn n role _ := childrenIn_bare n role

theorem bind_map_bare {β : Type} {g : Node → Option β} (hg : ∀ n : Node, g n.bare = g n)
    (n? : Option Node) : (n?.map bare).bind g = n?.bind g := by
  cases n? with
  | none => rfl
  | some n => exact hg n

theorem map_map_bare {β : Type} {g : Node → β} (hg : ∀ n : Node, g n.bare = g n)
    (n? : Option Node) : (n?.map bare).map g = n?.map g := by
  cases n? with
  | none => rfl
  | some n => exact congrArg some (hg n)

/-! ### Names and chains -/

@[simp] theorem isMember_bare (n : Node) : n.bare.isMember = n.isMember := by
  rw [isMember, label_bare]; rfl

@[simp] theorem identifier?_bare (n : Node) : n.bare.identifier? = n.identifier? := by
  rw [identifier?, label_bare]; rfl

@[simp] theorem isNamed_bare (n : Node) (name : String) : n.bare.isNamed name = n.isNamed name := by
  rw [isNamed, label_bare]; rfl

theorem bind_identifier?_bare (n? : Option Node) :
    (n?.map bare).bind identifier? = n?.bind identifier? := view_bare.bind_identifier? n?

@[simp] theorem name?_bare (n : Node) : n.bare.name? = n.name? := view_bare.name? n

@[simp] theorem chain_bare (n : Node) : n.bare.chain = n.chain.map bare := view_bare.chain n

@[simp] theorem base?_bare (n : Node) : n.bare.base? = n.base? := view_bare.base? n

end Node

/-! ### Declarations -/

theorem Site.initIsFresh_bare (f : String → Bool) (init : Option Node) :
    initIsFresh f (init.map Node.bare) = initIsFresh f init := Node.view_bare.initIsFresh f init

namespace Node

@[simp] theorem boundNames_bare (n : Node) : n.bare.boundNames = n.boundNames :=
  view_bare.boundNames n

@[simp] theorem destructures_bare (n : Node) : n.bare.destructures = n.destructures :=
  view_bare.destructures n

@[simp] theorem declarationKind?_bare (n : Node) :
    n.bare.declarationKind? = n.declarationKind? := by
  rw [declarationKind?, label_bare]; rfl

@[simp] theorem statements_bare (n : Node) : n.bare.statements = n.statements.map bare := by
  rw [statements, label_bare, childrenIn_bare, statements]
  cases n.label.isStatementList <;> rfl

@[simp] theorem declaresFunction_bare (n : Node) (name : String) :
    n.bare.declaresFunction name = n.declaresFunction name := view_bare.declaresFunction n name

/-! ### Targets and callees -/

theorem isNamed_child?_bare (n? : Option Node) (name : String) :
    ((n?.map bare).map (·.isNamed name)).getD false = (n?.map (·.isNamed name)).getD false := by
  rw [map_map_bare fun n => isNamed_bare n name]

@[simp] theorem isModuleExports_bare (n : Node) : n.bare.isModuleExports = n.isModuleExports := by
  simp only [isModuleExports, isMember_bare, child?_bare, isNamed_child?_bare]

@[simp] theorem reachesExports_bare (n : Node) : n.bare.reachesExports = n.reachesExports := by
  rw [reachesExports_eq_any, chain_bare, List.any_map, reachesExports_eq_any]
  simp [Function.comp_def, isExports]

@[simp] theorem isPrototype_bare (n : Node) : n.bare.isPrototype = n.isPrototype := by
  rw [isPrototype, isMember_bare, child?_bare, isPrototype]
  cases n.child? .object with
  | none => rfl
  | some owner =>
    simp only [Option.map_some, isMember_bare, child?_bare, isNamed_child?_bare,
      bind_identifier?_bare]

@[simp] theorem objectName?_bare (n : Node) : n.bare.objectName? = n.objectName? := by
  simp only [objectName?, label_bare, child?_bare, bind_identifier?_bare]

@[simp] theorem calleeName?_bare (n : Node) : n.bare.calleeName? = n.calleeName? :=
  view_bare.calleeName? n

@[simp] theorem qualifiedName?_bare (n : Node) : n.bare.qualifiedName? = n.qualifiedName? := by
  simp only [qualifiedName?, label_bare, child?_bare, bind_identifier?_bare]

end Node

namespace Pattern

@[simp] theorem matchesMember_bare (p : Pattern) (n : Node) :
    p.matchesMember n.bare = p.matchesMember n := by
  simp only [matchesMember, Node.isMember_bare, Node.child?_bare, Node.bind_identifier?_bare]
  cases n.child? .object <;> simp

@[simp] theorem anyMatches_bare (patterns : List Pattern) (n : Node) :
    anyMatches patterns n.bare = anyMatches patterns n := by
  rw [anyMatches_eq_any, Node.chain_bare, List.any_map, anyMatches_eq_any]
  simp [Function.comp_def]

end Pattern
end MutationLint
