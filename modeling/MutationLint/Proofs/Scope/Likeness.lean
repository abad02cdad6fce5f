import MutationLint.Proofs.Node.View
import MutationLint.Proofs.Scope.Rebinding

/-! What look-ups see of a scope. Of each node on the way up they see the label, the bag of the
declarations it owns, each by its kind and the surface of its declarator, and the functions declared
among its statements. Sites that look alike all the way up are not told apart. -/

namespace MutationLint

/-- A node with the label owns the variable declarations it holds in the role. -/
def Label.ownsIn (l : Label) (role : Role) : Bool :=
  l.isStatementList && role == .body || l = .forStatement && role == .init

namespace Node

def declarator? (d : Node) (name : String) : Option Node :=
  if d.label.isVariableDeclaration then
    (d.childrenIn .declarations).find? (·.boundNames.contains name)
  else none

/-- What a declaration of the name shows: its kind and the surface of the declarator. -/
def introduction? (d : Node) (name : String) : Option (Option String × Node) :=
  (d.declarator? name).map fun a => (d.declarationKind?, a.surface)

def introductions (owner : Node) (name : String) : List (Option String × Node) :=
  owner.children.filterMap fun c =>
    if owner.label.ownsIn c.1 then c.2.introduction? name else none

/-- The nodes look the same to a look-up that passes through them: declarations are a bag. -/
structure Alike (n m : Node) : Prop where
  label : n.label = m.label
  introductions : ∀ name, (n.introductions name).Perm (m.introductions name)
  functions : ∀ name, n.statements.any (·.declaresFunction name) =
    m.statements.any (·.declaresFunction name)

theorem Alike.refl (n : Node) : Alike n n := ⟨rfl, fun _ => List.Perm.refl _, fun _ => rfl⟩

theorem Alike.symm {n m : Node} (h : Alike n m) : Alike m n :=
  ⟨h.label.symm, fun name => (h.introductions name).symm, fun name => (h.functions name).symm⟩

theorem declarator?_surface (d : Node) (name : String) :
    d.surface.declarator? name = (d.declarator? name).map surface := by
  unfold declarator?
  rw [label_surface, d.childrenIn_surface rfl]
  split_ifs
  · rw [List.find?_map]
    congr 2
    funext a
    rw [Function.comp_apply, view_surface.boundNames]
  · rfl

theorem introduction?_congr {d e : Node} (h : d.surface = e.surface) (name : String) :
    d.introduction? name = e.introduction? name := by
  have hdeclarator : (d.declarator? name).map surface = (e.declarator? name).map surface := by
    rw [← declarator?_surface, h, declarator?_surface]
  have hkind : d.declarationKind? = e.declarationKind? := by
    rw [← view_surface.declarationKind?, h, view_surface.declarationKind?]
  have hmap := congrArg (Option.map fun a => (d.declarationKind?, a)) hdeclarator
  rw [Option.map_map, Option.map_map] at hmap
  unfold introduction?
  rw [← hkind]
  exact hmap

theorem declaresFunction_congr {n m : Node} (h : n.surface = m.surface) (name : String) :
    n.declaresFunction name = m.declaresFunction name := by
  rw [← view_surface.declaresFunction, h, view_surface.declaresFunction]

theorem filterMap_eq_of_map_eq {α β γ : Type} {f : α → β} {g : α → Option γ}
    (hg : ∀ a b, f a = f b → g a = g b) {xs ys : List α} (h : xs.map f = ys.map f) :
    xs.filterMap g = ys.filterMap g := by
  induction xs generalizing ys with
  | nil =>
    obtain rfl : ys = [] := by simpa using h.symm
    rfl
  | cons a xs ih =>
    obtain ⟨b, ys', rfl, hb, hys⟩ : ∃ b ys', ys = b :: ys' ∧ f b = f a ∧ ys'.map f = xs.map f := by
      simpa [eq_comm] using List.map_eq_cons_iff.mp h.symm
    rw [List.filterMap_cons, List.filterMap_cons, hg a b hb.symm, ih hys.symm]

theorem Alike.of_surfaces {n m : Node} (hlabel : n.label = m.label)
    (h : n.children.map (fun c => (c.1, c.2.surface)) =
      m.children.map (fun c => (c.1, c.2.surface))) : Alike n m := by
  refine ⟨hlabel, fun name => ?_, fun name => ?_⟩
  · unfold Node.introductions
    rw [← hlabel, filterMap_eq_of_map_eq (fun c d hcd => ?_) h]
    obtain ⟨hrole, hsurface⟩ := Prod.ext_iff.mp hcd
    rw [hrole, introduction?_congr hsurface]
  · have hany (k : Node) : (k.childrenIn .body).any (·.declaresFunction name) =
        (k.children.filterMap fun c =>
          if c.1 = .body then some (c.2.declaresFunction name) else none).any id := by
      rw [childrenIn, List.any_filterMap, List.any_filterMap]
      congr 1
      funext c
      by_cases hc : c.1 = .body <;> simp [hc]
    unfold Node.statements
    rw [← hlabel]
    split_ifs
    · rw [hany, hany, filterMap_eq_of_map_eq (fun c d hcd => ?_) h]
      obtain ⟨hrole, hsurface⟩ := Prod.ext_iff.mp hcd
      rw [hrole, declaresFunction_congr hsurface]
    · rfl

/-- A node that owns no declarations and holds no statements looks like any other such node. -/
theorem Alike.of_inert {n m : Node} (hlabel : n.label = m.label)
    (hlist : n.label.isStatementList = false) (hloop : n.label ≠ .forStatement) : Alike n m := by
  refine ⟨hlabel, fun name => ?_, fun name => ?_⟩
  · simp [Node.introductions, Label.ownsIn, ← hlabel, hlist, hloop]
  · simp [Node.statements, ← hlabel, hlist]

end Node

namespace Site

/-! ### The declarations a site owns -/

theorem map_node_childrenIn (s : Site) (role : Role) :
    (s.childrenIn role).map (·.node) = s.node.childrenIn role := by
  have hfrom (cs : List (Role × Node)) : ∀ i,
      ((s.childrenFrom i cs).filter (·.role? == some role)).map (·.node) =
        cs.filterMap fun c => if c.1 = role then some c.2 else none := by
    induction cs with
    | nil => intro i; rfl
    | cons c rest ih =>
      intro i
      obtain ⟨r, n⟩ := c
      have hrole : (s.descend i r n).role? = some r := rfl
      have hnode : (s.descend i r n).node = n := rfl
      rw [childrenFrom, List.filter_cons, hrole]
      obtain rfl | hr := eq_or_ne r role
      · simp [hnode, ih]
      · simp [hr, ih]
  exact hfrom s.node.children 0

theorem map_node_declarator? (d : Site) (name : String) :
    (d.declarator? name).map (·.node) = d.node.declarator? name := by
  unfold declarator? declarators Node.declarator? label
  split_ifs
  · rw [← map_node_childrenIn, List.find?_map]
    rfl
  · rfl

theorem isVariableDeclaration_of_declarator? {d a : Node} {name : String}
    (h : d.declarator? name = some a) : d.label.isVariableDeclaration = true := by
  unfold Node.declarator? at h
  split_ifs at h with hv
  exact hv

theorem mem_declarations {s d : Site} : d ∈ s.declarations ↔
    ∃ i role n, s.node.children[i]? = some (role, n) ∧ d = s.descend i role n ∧
      n.label.isVariableDeclaration = true ∧ s.label.ownsIn role = true := by
  unfold declarations
  rw [List.mem_filter, mem_children]
  constructor
  · rintro ⟨⟨i, role, n, hi, rfl⟩, h⟩
    rw [Bool.and_eq_true] at h
    exact ⟨i, role, n, hi, rfl, h⟩
  · rintro ⟨i, role, n, hi, rfl, h⟩
    refine ⟨⟨i, role, n, hi, rfl⟩, ?_⟩
    rw [Bool.and_eq_true]
    exact h

theorem mem_introductions {s : Site} {name : String} {x : Option String × Node} :
    x ∈ s.node.introductions name ↔ ∃ d ∈ s.declarations, ∃ a, d.declarator? name = some a ∧
      x = (d.node.declarationKind?, a.node.surface) := by
  unfold Node.introductions
  rw [List.mem_filterMap]
  constructor
  · rintro ⟨c, hc, hx⟩
    split_ifs at hx with hrole
    obtain ⟨n, hn, rfl⟩ := Option.map_eq_some_iff.mp hx
    obtain ⟨i, hi⟩ := List.mem_iff_getElem?.mp hc
    obtain ⟨a, ha, rfl⟩ : ∃ a, (s.descend i c.1 c.2).declarator? name = some a ∧ a.node = n :=
      Option.map_eq_some_iff.mp ((map_node_declarator? _ name).trans hn)
    have hd : s.descend i c.1 c.2 ∈ s.declarations :=
      mem_declarations.mpr ⟨i, _, _, hi, rfl, isVariableDeclaration_of_declarator? hn, hrole⟩
    exact ⟨_, hd, a, ha, rfl⟩
  · rintro ⟨d, hd, a, ha, rfl⟩
    obtain ⟨i, role, n, hi, rfl, -, hrole⟩ := mem_declarations.mp hd
    have hn : n.declarator? name = some a.node := by
      rw [show n = (s.descend i role n).node from rfl, ← map_node_declarator?, ha]
      rfl
    refine ⟨(role, n), List.mem_of_getElem? hi, ?_⟩
    rw [if_pos (show s.node.label.ownsIn role = true from hrole), Node.introduction?, hn]
    rfl

theorem owns_iff {s : Site} {name : String} : s.Owns name ↔ s.node.introductions name ≠ [] := by
  constructor
  · rintro ⟨d, hd, hdeclares⟩
    obtain ⟨a, ha⟩ := Option.isSome_iff_exists.mp hdeclares
    exact List.ne_nil_of_mem (mem_introductions.mpr ⟨d, hd, a, ha, rfl⟩)
  · intro h
    obtain ⟨x, hx⟩ := List.exists_mem_of_ne_nil _ h
    obtain ⟨d, hd, a, ha, -⟩ := mem_introductions.mp hx
    exact ⟨d, hd, declares_of_declarator? ha⟩

theorem isHeader_iff {s d : Site} (h : d ∈ s.declarations) :
    d.IsHeader ↔ s.label = .forStatement := by
  obtain ⟨i, role, n, hi, rfl, -, hrole⟩ := mem_declarations.mp h
  unfold IsHeader
  constructor
  · rintro ⟨loop, hp, hl, -⟩
    cases hp
    exact hl
  · intro hl
    have hinit : role = .init := by simpa [Label.ownsIn, hl, Label.isStatementList] using hrole
    exact ⟨s, rfl, hl, by rw [hinit]; rfl⟩

theorem initIsFresh_congr {f : String → Bool} {a b : Node} (h : a.surface = b.surface) :
    initIsFresh f (a.child? .init) = initIsFresh f (b.child? .init) := by
  rw [← Node.view_surface.initIsFresh, ← Node.child?_surface a rfl, h, Node.child?_surface b rfl,
    Node.view_surface.initIsFresh]

/-! ### Sites that look alike -/

/-- The sites, and the nodes above them one by one, look alike. -/
inductive Likewise : Site → Site → Prop
  | top {n m : Node} : n.Alike m → Likewise ⟨n, []⟩ ⟨m, []⟩
  | step {n m : Node} {t u : Step} {path path' : List Step} : n.Alike m →
      Likewise ⟨t.parent, path⟩ ⟨u.parent, path'⟩ → Likewise ⟨n, t :: path⟩ ⟨m, u :: path'⟩

namespace Likewise

variable {s s' : Site} {name : String}

theorem alike (h : Likewise s s') : s.node.Alike s'.node := by
  cases h with
  | top h => exact h
  | step h _ => exact h

theorem label (h : Likewise s s') : s.label = s'.label := h.alike.label

theorem symm (h : Likewise s s') : Likewise s' s := by
  induction h with
  | top h => exact .top h.symm
  | step h _ ih => exact .step h.symm ih

theorem parent? (h : Likewise s s') {p : Site} (hp : s.parent? = some p) :
    ∃ p', s'.parent? = some p' ∧ Likewise p p' := by
  cases h with
  | top _ => cases hp
  | step _ h =>
    cases hp
    exact ⟨_, rfl, h⟩

theorem of_parents {p p' : Site} (h : Likewise p p') (hs : s.parent? = some p)
    (hs' : s'.parent? = some p') (hn : s.node.Alike s'.node) : Likewise s s' := by
  obtain ⟨n, path⟩ := s
  obtain ⟨n', path'⟩ := s'
  cases path with
  | nil => cases hs
  | cons t path =>
    cases path' with
    | nil => cases hs'
    | cons u path' =>
      cases hs
      cases hs'
      exact .step hn h

theorem owns (h : Likewise s s') : s.Owns name ↔ s'.Owns name := by
  rw [owns_iff, owns_iff, ne_eq, ne_eq, ← List.length_eq_zero_iff, ← List.length_eq_zero_iff,
    (h.alike.introductions name).length_eq]

theorem nearest {owner : Site} (h : Likewise s s') (hn : Nearest name s owner) :
    ∃ owner', Nearest name s' owner' ∧ Likewise owner owner' := by
  induction hn generalizing s' with
  | here ho => exact ⟨s', .here (h.owns.mp ho), h⟩
  | up ho hl hp _ ih =>
    obtain ⟨p', hp', hpp⟩ := h.parent? hp
    obtain ⟨owner', ho', hoo⟩ := ih hpp
    refine ⟨owner', .up (fun hown => ho (h.owns.mpr hown)) ?_ hp' ho', hoo⟩
    rw [← h.label, hl]

/-- Whatever declaration of a name one of the sites owns, the other owns one that shows the same. -/
theorem declaration (h : Likewise s s') {d a : Site} (hd : d ∈ s.declarations)
    (ha : d.declarator? name = some a) : ∃ d' ∈ s'.declarations, ∃ a',
      d'.declarator? name = some a' ∧ d'.node.declarationKind? = d.node.declarationKind? ∧
        a'.node.surface = a.node.surface := by
  have hmem : (d.node.declarationKind?, a.node.surface) ∈ s.node.introductions name :=
    mem_introductions.mpr ⟨d, hd, a, ha, rfl⟩
  rw [(h.alike.introductions name).mem_iff] at hmem
  obtain ⟨d', hd', a', ha', heq⟩ := mem_introductions.mp hmem
  obtain ⟨hkind, hsurface⟩ := Prod.ext_iff.mp heq
  exact ⟨d', hd', a', ha', hkind.symm, hsurface.symm⟩

/-! ### Answers -/

/-- A derivation at one of the sites is a derivation, of the same height, at the other. -/
theorem freshAt {height : Nat} : ∀ {s s' : Site} {name : String}, Likewise s s' →
    freshAt height name s = true → Site.freshAt height name s' = true := by
  induction height with
  | zero => intro s s' name _ hf; cases hf
  | succ height ih =>
    intro s s' name h hf
    obtain ⟨owner, d, a, hn, hd, ha, hinit⟩ := freshAt_succ_iff.mp hf
    obtain ⟨owner', hn', ho⟩ := h.nearest hn
    obtain ⟨d', hd', a', ha', -, hsurface⟩ := ho.declaration hd ha
    refine freshAt_succ_iff.mpr ⟨owner', d', a', hn', hd', ha', ?_⟩
    rw [initIsFresh_congr hsurface]
    exact initIsFresh_mono (fun _ => ih ho) hinit

theorem fresh (h : Likewise s s') (hf : Fresh name s) : Fresh name s' := by
  obtain ⟨height, hf⟩ := fresh_iff_exists_freshAt.mp hf
  exact fresh_iff_exists_freshAt.mpr ⟨height, h.freshAt hf⟩

theorem rebinds (h : Likewise s s') {d : Site} (hd : d ∈ s.declarations) (hr : Rebinds name d) :
    ∃ d' ∈ s'.declarations, Rebinds name d' := by
  obtain ⟨a, ha⟩ := Option.isSome_iff_exists.mp hr.declares
  obtain ⟨d', hd', a', ha', hkind, hsurface⟩ := h.declaration hd ha
  have hid : (a'.node.child? .id).map Node.surface = (a.node.child? .id).map Node.surface := by
    rw [← Node.child?_surface _ rfl, hsurface, Node.child?_surface _ rfl]
  refine ⟨d', hd', ?_⟩
  rcases hr with ⟨hlet, hb, hplain⟩ | ⟨hlet, hb, hpattern, hl, hinit, hfresh⟩ |
    ⟨hb, hheader, hconst⟩
  · cases ha.symm.trans hb
    refine .plain (hkind.trans hlet) ha' ?_
    rwa [← Node.view_surface.bind_identifier?, hid, Node.view_surface.bind_identifier?]
  · cases ha.symm.trans hb
    obtain ⟨pattern', hpattern', hsame⟩ : ∃ pattern', a'.node.child? .id = some pattern' ∧ _ :=
      Option.map_eq_some_iff.mp (hid.trans (by rw [hpattern, Option.map_some]))
    have hl' : pattern'.label = .objectPattern := by
      rw [← Node.label_surface, hsame, Node.label_surface, hl]
    obtain ⟨height, hfresh⟩ :=
      (freshInit_iff_exists_freshAt (parent?_of_mem_declarations hd)).mp hfresh
    -- the initial value is fresh by names that are fresh where the other declaration stands
    have hfresh' : initIsFresh (fun name => Site.freshAt height name s')
        (a'.node.child? .init) = true := by
      rw [initIsFresh_congr hsurface, hinit]
      exact initIsFresh_mono (fun _ => h.freshAt) hfresh
    obtain ⟨e', he'⟩ : ∃ e', a'.node.child? .init = some e' := by
      cases he : a'.node.child? .init with
      | none => rw [he] at hfresh'; cases hfresh'
      | some e' => exact ⟨e', rfl⟩
    rw [he'] at hfresh'
    exact .destructured (hkind.trans hlet) ha' hpattern' hl' he'
      ((freshInit_iff_exists_freshAt (parent?_of_mem_declarations hd')).mpr ⟨height, hfresh'⟩)
  · exact .header ha' ((isHeader_iff hd').mpr (h.label ▸ (isHeader_iff hd).mp hheader))
      (hkind ▸ hconst)

section
variable {P P' : Node} (hs : s ∈ walk P) (hs' : s' ∈ walk P')
include hs hs'

theorem isFresh (h : Likewise s s') (name : String) : s.isFresh name = s'.isFresh name := by
  rw [Bool.eq_iff_iff, isFresh_iff_fresh hs, isFresh_iff_fresh hs']
  exact ⟨h.fresh, h.symm.fresh⟩

theorem isRebindable (h : Likewise s s') (name : String) :
    s.isRebindable name = s'.isRebindable name := by
  have himp {s s' : Site} (h : Likewise s s') :
      (∃ owner, Nearest name s owner ∧ ∃ d ∈ owner.declarations, Rebinds name d) →
        ∃ owner, Nearest name s' owner ∧ ∃ d ∈ owner.declarations, Rebinds name d := by
    rintro ⟨owner, hn, d, hd, hr⟩
    obtain ⟨owner', hn', ho⟩ := h.nearest hn
    exact ⟨owner', hn', ho.rebinds hd hr⟩
  rw [Bool.eq_iff_iff, isRebindable_iff hs, isRebindable_iff hs']
  exact ⟨himp h, himp h.symm⟩

end

theorem hasFunction (h : Likewise s s') (name : String) :
    s.hasFunction name = s'.hasFunction name := by
  unfold Site.hasFunction blockScope
  induction h with
  | top h => simp [upTo, h.functions name]
  | @step n m t u path path' h _ ih =>
    simp only [upTo, h.label, List.any_cons, h.functions name]
    split_ifs
    · rfl
    · rw [ih]

/-- Every look-up of a target answers the same at sites of programs that look alike. -/
theorem target {P P' : Node} (h : Likewise s s') (hs : s ∈ walk P) (hs' : s' ∈ walk P')
    (target : Option Node) :
    (Target.of target (some s)).isRebindable = (Target.of target (some s')).isRebindable ∧
    (Target.of target (some s)).isFunction = (Target.of target (some s')).isFunction ∧
    ∀ functions, (Target.of target (some s)).isFresh functions =
      (Target.of target (some s')).isFresh functions := by
  have hholds {p : Site → String → Bool} (hp : ∀ name, p s name = p s' name) :
      (Target.of target (some s)).holds p = (Target.of target (some s')).holds p := by
    unfold Target.holds Target.of
    cases target.bind Node.base? with
    | none => rfl
    | some name => exact hp name
  refine ⟨hholds (h.isRebindable hs hs'), hholds h.hasFunction, fun functions => ?_⟩
  unfold Target.isFresh Target.isFunction
  rw [hholds h.hasFunction, hholds (h.isFresh hs hs')]

end Likewise

end Site
end MutationLint
