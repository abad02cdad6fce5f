import MutationLint.Proofs.Node.ObjectChain

/-! What look-ups read off nodes. They follow some roles only: none that holds statements, the left
side of an assignment or the argument of an update. A map of nodes that keeps labels and what is
held in the other roles is a view, through which everything reads the same. -/

namespace MutationLint

def Role.isRead : Role → Bool
  | .body | .left | .argument => false
  | _ => true

namespace Node

/-- A map of nodes that keeps labels and all that is read. -/
structure View (φ : Node → Node) : Prop where
  label : ∀ n, (φ n).label = n.label
  child? : ∀ n role, role.isRead = true → (φ n).child? role = (n.child? role).map φ
  childrenIn : ∀ n role, role.isRead = true → (φ n).childrenIn role = (n.childrenIn role).map φ

theorem identifier?_eq_some_iff {n : Node} {name : String} :
    n.identifier? = some name ↔ n.label = .identifier name := by
  unfold identifier?
  cases n.label <;> simp

theorem isMember_iff {n : Node} :
    n.isMember = true ↔ ∃ computed optional, n.label = .member computed optional := by
  unfold isMember
  cases n.label <;> simp

/-- A conditional comes to what either branch comes to. -/
theorem outcomes_of_conditional {n : Node} (h : n.label.isConditional = true) :
    n.outcomes = ((n.child? .consequent).map outcomes).getD [none] ++
      ((n.child? .alternate).map outcomes).getD [none] := by
  obtain ⟨l, e, cs⟩ := n
  have hbranch (role : Role) : outcomesIn role cs =
      ((Node.child? (.mk l e cs) role).map outcomes).getD [none] := by
    rw [outcomesIn_eq, Node.child?, children_mk]
    cases cs.find? (·.1 == role) <;> rfl
  cases l with
  | conditional => rw [outcomes, hbranch, hbranch]
  | _ => cases h

namespace View

variable {φ : Node → Node} (h : View φ)
include h

/-! ### Names and chains -/

theorem isMember (n : Node) : (φ n).isMember = n.isMember := by
  simp only [Node.isMember, h.label]

theorem identifier? (n : Node) : (φ n).identifier? = n.identifier? := by
  simp only [Node.identifier?, h.label]

theorem bind_identifier? (n? : Option Node) :
    (n?.map φ).bind Node.identifier? = n?.bind Node.identifier? := by
  cases n? with
  | none => rfl
  | some n => exact h.identifier? n

theorem name? (n : Node) : (φ n).name? = n.name? := by
  simp only [Node.name?, h.label, h.child? n .expression rfl, h.identifier?, h.bind_identifier?]

theorem isRoot {n : Node} (hr : n.IsRoot) : (φ n).IsRoot := by
  intro hn
  rw [h.child? n .object rfl, hr (h.isMember n ▸ hn)]
  rfl

theorem child?_object {n m : Node} (hm : n.child? .object = some m) :
    (φ n).child? .object = some (φ m) := by
  rw [h.child? n .object rfl, hm]
  rfl

theorem chain (n : Node) : (φ n).chain = n.chain.map φ := by
  induction n using chain_induction with
  | root n hr => rw [chain_of_isRoot hr, chain_of_isRoot (h.isRoot hr), List.map_singleton]
  | member n m hn hm ih =>
    rw [chain_of_object hn hm, chain_of_object ((h.isMember n).trans hn) (h.child?_object hm), ih,
      List.map_cons]

theorem leftMost (n : Node) : (φ n).leftMost = φ n.leftMost := by
  induction n using chain_induction with
  | root n hr => rw [leftMost_of_no_object hr, leftMost_of_no_object (h.isRoot hr)]
  | member n m hn hm ih =>
    rw [leftMost_of_object hn hm,
      leftMost_of_object ((h.isMember n).trans hn) (h.child?_object hm), ih]

theorem base? (n : Node) : (φ n).base? = n.base? := by
  rw [Node.base?, h.leftMost, h.name?, Node.base?]

theorem calleeName? (n : Node) : (φ n).calleeName? = n.calleeName? := by
  simp only [Node.calleeName?, h.label, h.child? n .property rfl, h.bind_identifier?]

/-! ### Declarations -/

theorem outcomes (n : Node) : (φ n).outcomes = n.outcomes.map (·.map φ) := by
  induction hk : n.size using Nat.strongRecOn generalizing n with
  | _ k ih =>
    cases hc : n.label.isConditional with
    | false =>
      rw [outcomes_of_not_conditional hc, outcomes_of_not_conditional (by rw [h.label, hc])]
      rfl
    | true =>
      have hbranch (role : Role) : (((n.child? role).map φ).map Node.outcomes).getD [none] =
          (((n.child? role).map Node.outcomes).getD [none]).map (·.map φ) := by
        cases hb : n.child? role with
        | none => rfl
        | some m => exact ih m.size (hk ▸ size_lt_of_child? hb) m rfl
      rw [outcomes_of_conditional hc, outcomes_of_conditional (by rw [h.label, hc]),
        h.child? n .consequent rfl, h.child? n .alternate rfl, hbranch, hbranch, List.map_append]

theorem initIsFresh (f : String → Bool) (init : Option Node) :
    Site.initIsFresh f (init.map φ) = Site.initIsFresh f init := by
  cases init with
  | none => rfl
  | some e =>
    rw [Option.map_some, Site.initIsFresh_some, Site.initIsFresh_some, h.outcomes, List.all_map]
    congr 1
    funext o
    cases o <;> simp [Site.outcomeIsFresh, h.label, h.base?]

theorem destructured? (n : Node) : (φ n).destructured? = n.destructured? := by
  rw [Node.destructured?, h.child? n .value rfl, h.bind_identifier?, Node.destructured?]

theorem isObjectPattern (n : Node) : (φ n).isObjectPattern = n.isObjectPattern := by
  simp only [Node.isObjectPattern, h.label]

theorem boundNames (n : Node) : (φ n).boundNames = n.boundNames := by
  rw [Node.boundNames, h.child? n .id rfl, Node.boundNames]
  cases n.child? .id with
  | none => rfl
  | some id =>
    simp [h.isObjectPattern, h.identifier?, h.childrenIn id .properties rfl, List.filterMap_map,
      h.destructured?]

theorem destructures (n : Node) : (φ n).destructures = n.destructures := by
  rw [Node.destructures, h.child? n .id rfl, Node.destructures]
  cases n.child? .id <;> simp [h.isObjectPattern]

theorem declarationKind? (n : Node) : (φ n).declarationKind? = n.declarationKind? := by
  simp only [Node.declarationKind?, h.label]

theorem declaresFunction (n : Node) (name : String) :
    (φ n).declaresFunction name = n.declaresFunction name := by
  have hd (d : Node) :
      ((φ d).label.isDeclaration && ((φ d).child? .id).bind Node.name? == some name) =
        (d.label.isDeclaration && (d.child? .id).bind Node.name? == some name) := by
    rw [h.label, h.child? d .id rfl]
    cases d.child? .id <;> simp [h.name?]
  rw [Node.declaresFunction, Node.declaresFunction, h.label]
  cases n.label.isExport with
  | false => exact hd n
  | true =>
    rw [if_pos rfl, if_pos rfl, h.child? n .declaration rfl]
    cases n.child? .declaration with
    | none => rfl
    | some d => exact hd d

end View

/-! ### Surfaces -/

mutual

def surface : Node → Node
  | .mk l _ cs => .mk l .origin (surfaceAll cs)

def surfaceAll : List (Role × Node) → List (Role × Node)
  | [] => []
  | (role, n) :: rest =>
    if role.isRead then (role, n.surface) :: surfaceAll rest else surfaceAll rest

end

theorem surfaceAll_eq (cs : List (Role × Node)) :
    surfaceAll cs = (cs.filter (·.1.isRead)).map fun c => (c.1, c.2.surface) := by
  induction cs with
  | nil => rfl
  | cons c rest ih =>
    obtain ⟨role, n⟩ := c
    rw [surfaceAll, List.filter_cons]
    split_ifs
    · rw [ih, List.map_cons]
    · exact ih

@[simp] theorem label_surface (n : Node) : n.surface.label = n.label := by
  cases n; rfl

theorem children_surface (n : Node) : n.surface.children =
    (n.children.filter (·.1.isRead)).map fun c => (c.1, c.2.surface) := by
  cases n
  exact surfaceAll_eq _

theorem child?_surface (n : Node) {role : Role} (h : role.isRead = true) :
    n.surface.child? role = (n.child? role).map surface := by
  have hfind : (n.children.filter (·.1.isRead)).find? (·.1 == role) =
      n.children.find? (·.1 == role) := by
    rw [List.find?_filter]
    congr 1
    funext c
    by_cases hc : c.1 = role <;> simp [hc, h]
  have hrole : (fun c : Role × Node => c.1 == role) ∘
      (fun c : Role × Node => (c.1, c.2.surface)) = fun c => c.1 == role := rfl
  rw [child?, children_surface, List.find?_map, hrole, hfind, child?, Option.map_map,
    Option.map_map]
  rfl

theorem childrenIn_surface (n : Node) {role : Role} (h : role.isRead = true) :
    n.surface.childrenIn role = (n.childrenIn role).map surface := by
  rw [childrenIn, children_surface, List.filterMap_map, List.filterMap_filter, childrenIn,
    List.map_filterMap]
  congr 1
  funext c
  by_cases hc : c.1 = role <;> simp [hc, h]

theorem view_surface : View surface where
  label := label_surface
  child? n _ h := n.child?_surface h
  childrenIn n _ h := n.childrenIn_surface h

theorem surface_congr {n m : Node} (hlabel : n.label = m.label)
    (h : n.children.map (fun c => (c.1, c.2.surface)) =
      m.children.map (fun c => (c.1, c.2.surface))) : n.surface = m.surface := by
  have hread := congrArg (List.filter (·.1.isRead)) h
  obtain ⟨l, e, cs⟩ := n
  obtain ⟨l', e', cs'⟩ := m
  obtain rfl : l = l' := hlabel
  simpa [surface, surfaceAll_eq, List.filter_map, Function.comp_def] using hread

end Node
end MutationLint
