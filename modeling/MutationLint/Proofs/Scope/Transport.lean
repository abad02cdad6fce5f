import MutationLint.Proofs.Node.Bare
import MutationLint.Proofs.Scope.CycleGuard

/-! Moving sites about. A map of sites that keeps what is read off each node, the steps down and
the steps up is one that no look-up notices, as long as the look-ups end where the steps up do. -/

namespace MutationLint

namespace Site

/-- The topmost node ends the variable scope, so that no look-up goes beyond it. -/
def Closed (s : Site) : Prop := s.top.label.endsVariableScope = true

theorem Closed.of_parent? {s p : Site} (h : s.Closed) (hp : s.parent? = some p) : p.Closed := by
  rw [Closed, top_of_parent? hp]
  exact h

theorem Closed.exists_parent? {s : Site} (h : s.Closed) (hs : s.label.endsVariableScope = false) :
    ∃ p, s.parent? = some p := by
  obtain ⟨n, path⟩ := s
  cases path with
  | nil => exact absurd (h.symm.trans hs) (by decide)
  | cons step path => exact ⟨_, rfl⟩

theorem Nearest.closed {name : String} {s owner : Site} (h : Nearest name s owner)
    (hs : s.Closed) : owner.Closed := by
  induction h with
  | here _ => exact hs
  | up _ _ hp _ ih => exact ih (hs.of_parent? hp)

/-- A map of sites that look-ups do not notice. -/
structure Unnoticed (φ : Site → Site) : Prop where
  node : ∀ s, (φ s).node.bare = s.node.bare
  children : ∀ s, (φ s).children = s.children.map φ
  role : ∀ s p : Site, s.parent? = some p → (φ s).role? = s.role?
  parent : ∀ s p : Site, s.parent? = some p → (φ s).parent? = some (φ p)

namespace Unnoticed

variable {φ : Site → Site} (h : Unnoticed φ)
include h

theorem label (s : Site) : (φ s).label = s.label := by
  rw [Site.label, Site.label, ← Node.label_bare, h.node, Node.label_bare]

theorem child?_bare (s : Site) (role : Role) :
    ((φ s).node.child? role).map Node.bare = (s.node.child? role).map Node.bare := by
  rw [← Node.child?_bare, h.node, Node.child?_bare]

theorem boundNames (s : Site) : (φ s).node.boundNames = s.node.boundNames := by
  rw [← Node.boundNames_bare, h.node, Node.boundNames_bare]

theorem initIsFresh (f : String → Bool) (s : Site) (role : Role) :
    Site.initIsFresh f ((φ s).node.child? role) = Site.initIsFresh f (s.node.child? role) := by
  rw [← initIsFresh_bare, h.child?_bare, initIsFresh_bare]

/-! ### Declarations -/

theorem filter_children (p : Option Role → Label → Bool) (s : Site) :
    (φ s).children.filter (fun c => p c.role? c.label) =
      (s.children.filter fun c => p c.role? c.label).map φ := by
  rw [h.children, List.filter_map]
  congr 1
  refine List.filter_congr fun c hc => ?_
  rw [Function.comp_apply, h.role c s (parent?_of_mem_children hc), h.label]

theorem declarations (s : Site) : (φ s).declarations = s.declarations.map φ := by
  have := h.filter_children (fun role l => l.isVariableDeclaration &&
    (s.label.isStatementList && role == some .body ||
      s.label = .forStatement && role == some .init)) s
  simpa only [Site.declarations, h.label] using this

theorem declarators (d : Site) : (φ d).declarators = d.declarators.map φ := by
  rw [Site.declarators, Site.declarators, h.label]
  cases d.label.isVariableDeclaration with
  | false => rfl
  | true => exact h.filter_children (fun role _ => role == some .declarations) d

theorem declarator? (d : Site) (name : String) :
    (φ d).declarator? name = (d.declarator? name).map φ := by
  rw [Site.declarator?, h.declarators, List.find?_map, Site.declarator?]
  congr 2
  funext a
  rw [Function.comp_apply, h.boundNames]

theorem declares (d : Site) (name : String) : (φ d).declares name = d.declares name := by
  rw [Site.declares, h.declarator?, Option.isSome_map, Site.declares]

theorem declarationsOf (s : Site) (name : String) :
    (φ s).declarationsOf name = (s.declarationsOf name).map φ := by
  rw [Site.declarationsOf, h.declarations, List.filter_map, Site.declarationsOf]
  congr 2
  funext d
  rw [Function.comp_apply, h.declares]

/-! ### Ways up -/

theorem upTo {stops : Label → Bool} (hstops : ∀ l, l.endsVariableScope = true → stops l = true) :
    ∀ s, s.Closed → Site.upTo stops (φ s).node (φ s).path =
      (Site.upTo stops s.node s.path).map φ := by
  intro s
  induction hn : s.path.length using Nat.strongRecOn generalizing s with
  | _ n ih =>
    intro hs
    rw [upTo_eq, upTo_eq stops s, h.label, List.map_cons]
    cases hst : stops s.label with
    | true => rfl
    | false =>
      have hends : s.label.endsVariableScope = false := by
        cases he : s.label.endsVariableScope with
        | false => rfl
        | true => rw [hstops _ he] at hst; cases hst
      obtain ⟨p, hp⟩ := hs.exists_parent? hends
      have hlt : p.path.length < n := by
        obtain ⟨m, path⟩ := s
        cases path with
        | nil => cases hp
        | cons step path => cases hp; simp [← hn]
      rw [h.parent s p hp, hp]
      exact congrArg (φ s :: ·) (ih _ hlt p rfl (hs.of_parent? hp))

theorem declaring? {s : Site} (hs : s.Closed) (name : String) :
    (φ s).declaring? name = (s.declaring? name).map φ := by
  rw [Site.declaring?, variableScope, h.upTo (fun _ => id) s hs, List.find?_map, Site.declaring?,
    variableScope]
  congr 2
  funext owner
  rw [Function.comp_apply, h.declarationsOf, List.isEmpty_map]

theorem blockScope {s : Site} (hs : s.Closed) :
    (φ s).blockScope = s.blockScope.map φ := by
  refine h.upTo (fun l hl => ?_) s hs
  rw [Label.endsBlock, hl, Bool.true_or]

/-! ### Answers -/

theorem anyBinding {s : Site} (hs : s.Closed) (name : String) (test : Site → Site → Bool) :
    Site.anyBinding name (φ s) test =
      Site.anyBinding name s fun owner a => test (φ owner) (φ a) := by
  rw [Site.anyBinding, Site.anyBinding, h.declaring? hs]
  cases s.declaring? name with
  | none => rfl
  | some owner =>
    simp only [Option.map_some, h.declarationsOf, List.any_map]
    congr 1
    funext d
    rw [Function.comp_apply, h.declarator?]
    cases d.declarator? name <;> rfl

theorem freshAt (height : Nat) : ∀ {s : Site}, s.Closed → ∀ name,
    Site.freshAt height name (φ s) = Site.freshAt height name s := by
  induction height with
  | zero => intro s _ name; rfl
  | succ height ih =>
    intro s hs name
    rw [Site.freshAt, h.anyBinding hs, Site.freshAt, Bool.eq_iff_iff, anyBinding_iff,
      anyBinding_iff]
    refine exists_congr fun owner => exists_congr fun d => exists_congr fun a =>
      and_congr_right fun ho => ?_
    rw [h.initIsFresh, funext (ih (ho.closed hs))]

theorem fresh {s : Site} (hs : s.Closed) (name : String) : Fresh name (φ s) ↔ Fresh name s := by
  rw [fresh_iff_exists_freshAt, fresh_iff_exists_freshAt]
  exact exists_congr fun height => by rw [h.freshAt height hs]

section
variable {P Q : Node} {s : Site} (hs : s ∈ walk P) (hφ : φ s ∈ walk Q) (hc : s.Closed)
include hs hφ hc

theorem isFresh (name : String) : (φ s).isFresh name = s.isFresh name := by
  rw [Bool.eq_iff_iff, isFresh_iff_fresh hφ, isFresh_iff_fresh hs]
  exact h.fresh hc name

omit hs in
/-- With a site, the owner a look-up finds from it lies in the program it is moved to. -/
theorem mem_walk_of_nearest {name : String} {owner : Site} (ho : Nearest name s owner) :
    φ owner ∈ walk Q := by
  have hn : Nearest name (φ s) (φ owner) := by
    rw [← declaring?_eq_some_iff, h.declaring? hc, declaring?_eq_some_iff.mpr ho]
    rfl
  exact hn.mem_walk hφ

theorem declaresFresh {name : String} {owner d : Site} (ho : Nearest name s owner)
    (hd : d ∈ owner.declarations) : (φ d).declaresFresh name = d.declaresFresh name := by
  have how := ho.mem_walk hs
  have how' := h.mem_walk_of_nearest hφ hc ho
  have hd' : φ d ∈ (φ owner).declarations := by
    rw [h.declarations]
    exact List.mem_map_of_mem hd
  have hp := parent?_of_mem_declarations hd
  have hp' := parent?_of_mem_declarations hd'
  rw [Bool.eq_iff_iff,
    declaresFresh_iff (mem_walk_of_mem_children how (mem_children_of_mem_declarations hd)) hp,
    declaresFresh_iff (mem_walk_of_mem_children how' (mem_children_of_mem_declarations hd')) hp',
    h.declarator?]
  cases ha : d.declarator? name with
  | none => simp
  | some a =>
    have ha' : (φ d).declarator? name = some (φ a) := by rw [h.declarator?, ha]; rfl
    simp only [Option.map_some, Option.some.injEq, exists_eq_left']
    refine exists_congr fun height => ?_
    rw [initFreshAt_iff (mem_children_of_declarator? ha) hp,
      initFreshAt_iff (mem_children_of_declarator? ha') hp', h.initIsFresh,
      funext (h.freshAt height (ho.closed hc))]

theorem isRebindableOf {name : String} {owner d : Site} (ho : Nearest name s owner)
    (hd : d ∈ owner.declarations) : (φ d).isRebindableOf name = d.isRebindableOf name := by
  have hd' : φ d ∈ (φ owner).declarations := by
    rw [h.declarations]
    exact List.mem_map_of_mem hd
  have hk : (φ d).node.declarationKind? = d.node.declarationKind? := by
    rw [← Node.declarationKind?_bare, h.node, Node.declarationKind?_bare]
  have hlet : (φ d).isLetOf name = d.isLetOf name := by
    rw [isLetOf, isLetOf, hk, h.declarator?, h.declaresFresh hs hφ hc ho hd]
    cases d.declarator? name with
    | none => rfl
    | some a =>
      simp only [Option.map_some]
      rw [← Node.destructures_bare, h.node, Node.destructures_bare]
  have hloop : (φ d).isLoopHeaderOf name = d.isLoopHeaderOf name := by
    rw [isLoopHeaderOf, isLoopHeaderOf, h.label, hk, h.declares,
      parent?_of_mem_declarations hd, parent?_of_mem_declarations hd',
      h.role d owner (parent?_of_mem_declarations hd)]
    simp only [h.label]
  rw [Site.isRebindableOf, Site.isRebindableOf, hlet, hloop]

theorem isRebindable (name : String) : (φ s).isRebindable name = s.isRebindable name := by
  rw [Site.isRebindable, Site.isRebindable, h.declaring? hc]
  cases ho : s.declaring? name with
  | none => rfl
  | some owner =>
    simp only [Option.map_some, h.declarationsOf, List.any_map]
    rw [Bool.eq_iff_iff, List.any_eq_true, List.any_eq_true]
    refine exists_congr fun d => and_congr_right fun hd => ?_
    rw [Function.comp_apply, h.isRebindableOf hs hφ hc (declaring?_eq_some_iff.mp ho)
      (mem_declarationsOf.mp hd).1]

end

theorem hasFunction {s : Site} (hc : s.Closed) (name : String) :
    (φ s).hasFunction name = s.hasFunction name := by
  have hb (n : Node) : n.bare.statements.any (·.declaresFunction name) =
      n.statements.any (·.declaresFunction name) := by
    rw [Node.statements_bare, List.any_map]
    congr 1
    funext t
    exact Node.declaresFunction_bare t name
  rw [Site.hasFunction, h.blockScope hc, List.any_map, Site.hasFunction]
  congr 1
  funext t
  rw [Function.comp_apply, ← hb, h.node, hb]

end Unnoticed

end Site
end MutationLint
