import MutationLint.Proofs.Scope.Transport

/-! Look-ups inside a function or class declaration. What they answer depends on the declaration
alone: neither on the program around it nor on where in a source it stands. -/

namespace MutationLint

def Step.bare (t : Step) : Step := ⟨t.parent.bare, t.role, t.index⟩

namespace Site

def bare (s : Site) : Site := ⟨s.node.bare, s.path.map Step.bare⟩

/-- The site of a subtree as a site of the program that holds the subtree. -/
def within (s d : Site) : Site := ⟨s.node, s.path ++ d.path⟩

theorem address_bare (s : Site) : s.bare.address = s.address := by
  simp [address, bare, Step.bare, Function.comp_def]

theorem address_within (s d : Site) : (s.within d).address = s.address ++ d.address := by
  simp [address, within]

theorem childrenFrom_bare (s : Site) (cs : List (Role × Node)) :
    ∀ i, s.bare.childrenFrom i (cs.map fun c => (c.1, c.2.bare)) =
      (s.childrenFrom i cs).map bare := by
  induction cs with
  | nil => intro i; rfl
  | cons c rest ih => intro i; exact congrArg (_ :: ·) (ih (i + 1))

theorem childrenFrom_within (s d : Site) (cs : List (Role × Node)) :
    ∀ i, (s.within d).childrenFrom i cs = (s.childrenFrom i cs).map (·.within d) := by
  induction cs with
  | nil => intro i; rfl
  | cons c rest ih => intro i; exact congrArg (_ :: ·) (ih (i + 1))

theorem unnoticed_bare : Unnoticed bare where
  node s := Node.bare_bare s.node
  children s := by
    rw [children, bare, Node.children_bare]
    exact childrenFrom_bare s s.node.children 0
  role s p _ := by
    obtain ⟨n, path⟩ := s
    cases path <;> rfl
  parent s p hp := by
    obtain ⟨n, path⟩ := s
    cases path with
    | nil => cases hp
    | cons step path => cases hp; rfl

theorem unnoticed_within (d : Site) : Unnoticed (·.within d) where
  node _ := rfl
  children s := childrenFrom_within s d s.node.children 0
  role s p hp := by
    obtain ⟨n, path⟩ := s
    cases path with
    | nil => cases hp
    | cons step path => rfl
  parent s p hp := by
    obtain ⟨n, path⟩ := s
    cases path with
    | nil => cases hp
    | cons step path => cases hp; rfl

/-! ### The sites of a subtree -/

theorem under_within {d s t : Site} (h : Under s t) : Under (s.within d) (t.within d) := by
  induction h with
  | refl => exact .refl
  | child _ hc ih =>
    refine .child ih ?_
    rw [(unnoticed_within d).children]
    exact List.mem_map_of_mem hc

theorem under_bare {s t : Site} (h : Under s t) : Under s.bare t.bare := by
  induction h with
  | refl => exact .refl
  | child _ hc ih =>
    refine .child ih ?_
    rw [unnoticed_bare.children]
    exact List.mem_map_of_mem hc

theorem bare_mem_walk {n : Node} {s : Site} (h : s ∈ walk n) : s.bare ∈ walk n.bare :=
  mem_walk.mpr (under_bare (mem_walk.mp h))

theorem exists_of_mem_walk_bare {n : Node} {t : Site} (h : t ∈ walk n.bare) :
    ∃ s ∈ walk n, s.bare = t := by
  rw [mem_walk] at h
  induction h with
  | refl => exact ⟨root n, root_mem_walk n, rfl⟩
  | child _ hc ih =>
    obtain ⟨s, hs, rfl⟩ := ih
    rw [unnoticed_bare.children] at hc
    obtain ⟨c, hcs, rfl⟩ := List.mem_map.mp hc
    exact ⟨c, mem_walk_of_mem_children hs hcs, rfl⟩

theorem exists_of_under {d s : Site} (h : Under d s) : ∃ r ∈ walk d.node, r.within d = s := by
  induction h with
  | refl => exact ⟨root d.node, root_mem_walk d.node, rfl⟩
  | child _ hc ih =>
    obtain ⟨r, hr, rfl⟩ := ih
    rw [(unnoticed_within d).children] at hc
    obtain ⟨c, hcr, rfl⟩ := List.mem_map.mp hc
    exact ⟨c, mem_walk_of_mem_children hr hcr, rfl⟩

/-- A function or class declaration that stands in two programs. -/
structure Shared (P₁ P₂ : Node) (d₁ d₂ : Site) : Prop where
  mem₁ : d₁ ∈ walk P₁
  mem₂ : d₂ ∈ walk P₂
  declaration : d₁.label.isDeclaration = true
  same : d₁.node.bare = d₂.node.bare

/-- Two sites at the same place, one below each of two others. -/
structure SamePlace (d₁ d₂ s₁ s₂ : Site) : Prop where
  under₁ : Under d₁ s₁
  under₂ : Under d₂ s₂
  address : ∃ a : Address, s₁.address = a ++ d₁.address ∧ s₂.address = a ++ d₂.address

section
variable {P₁ P₂ : Node} {d₁ d₂ s₁ s₂ : Site}

theorem Shared.symm (h : Shared P₁ P₂ d₁ d₂) : Shared P₂ P₁ d₂ d₁ where
  mem₁ := h.mem₂
  mem₂ := h.mem₁
  declaration := by
    rw [label, ← Node.label_bare, ← h.same, Node.label_bare]
    exact h.declaration
  same := h.same.symm

theorem closed_of_mem_walk {n : Node} (hn : n.label.isDeclaration = true) {r : Site}
    (hr : r ∈ walk n) : r.Closed := by
  rw [Closed, top_of_mem_walk hr, Label.endsVariableScope, hn, Bool.or_true]

theorem within_mem_walk {P : Node} {d r : Site} (hd : d ∈ walk P) (hr : r ∈ walk d.node) :
    r.within d ∈ walk P := by
  have hu : Under ((root d.node).within d) (r.within d) := under_within (mem_walk.mp hr)
  exact mem_walk_of_under hd hu

theorem SamePlace.exists_sites (h : Shared P₁ P₂ d₁ d₂) (hp : SamePlace d₁ d₂ s₁ s₂) :
    ∃ r₁ ∈ walk d₁.node, ∃ r₂ ∈ walk d₂.node,
      r₁.within d₁ = s₁ ∧ r₂.within d₂ = s₂ ∧ r₁.bare = r₂.bare := by
  obtain ⟨r₁, hr₁, rfl⟩ := exists_of_under hp.under₁
  obtain ⟨r₂, hr₂, rfl⟩ := exists_of_under hp.under₂
  obtain ⟨a, ha₁, ha₂⟩ := hp.address
  rw [address_within, List.append_left_inj] at ha₁ ha₂
  refine ⟨r₁, hr₁, r₂, hr₂, rfl, rfl, ?_⟩
  have hb₁ := bare_mem_walk hr₁
  rw [h.same] at hb₁
  refine eq_of_address hb₁ (bare_mem_walk hr₂) ?_
  rw [address_bare, address_bare, ha₁, ha₂]

theorem Shared.exists_samePlace (h : Shared P₁ P₂ d₁ d₂) (hs : Under d₁ s₁) :
    ∃ s₂, SamePlace d₁ d₂ s₁ s₂ := by
  obtain ⟨r₁, hr₁, rfl⟩ := exists_of_under hs
  have hb := bare_mem_walk hr₁
  rw [h.same] at hb
  obtain ⟨r₂, hr₂, hr⟩ := exists_of_mem_walk_bare hb
  refine ⟨r₂.within d₂, hs, under_within (mem_walk.mp hr₂), r₁.address, address_within r₁ d₁, ?_⟩
  rw [address_within, ← address_bare r₂, hr, address_bare]

/-- What no unnoticed map changes is the same at the same place of a shared declaration. The maps
may be taken from a class that holds the three in use. -/
theorem SamePlace.agree {α : Sort*} (f : Site → α) (ok : (Site → Site) → Prop)
    (h : Shared P₁ P₂ d₁ d₂) (hp : SamePlace d₁ d₂ s₁ s₂)
    (hf : ∀ {φ : Site → Site} {P Q : Node} {s : Site}, Unnoticed φ → ok φ → s ∈ walk P →
      φ s ∈ walk Q → s.Closed → f (φ s) = f s)
    (hbare : ok bare) (h₁ : ok (·.within d₁)) (h₂ : ok (·.within d₂)) : f s₁ = f s₂ := by
  obtain ⟨r₁, hr₁, r₂, hr₂, rfl, rfl, hb⟩ := hp.exists_sites h
  have hc₁ := closed_of_mem_walk h.declaration hr₁
  have hc₂ := closed_of_mem_walk h.symm.declaration hr₂
  calc f (r₁.within d₁)
    _ = f r₁ := hf (unnoticed_within d₁) h₁ hr₁ (within_mem_walk h.mem₁ hr₁) hc₁
    _ = f r₁.bare := (hf unnoticed_bare hbare hr₁ (bare_mem_walk hr₁) hc₁).symm
    _ = f r₂.bare := by rw [hb]
    _ = f r₂ := hf unnoticed_bare hbare hr₂ (bare_mem_walk hr₂) hc₂
    _ = f (r₂.within d₂) :=
      (hf (unnoticed_within d₂) h₂ hr₂ (within_mem_walk h.mem₂ hr₂) hc₂).symm

/-- The look-ups of a name answer the same at the same place of a shared declaration. -/
theorem SamePlace.lookups (h : Shared P₁ P₂ d₁ d₂) (hp : SamePlace d₁ d₂ s₁ s₂) (name : String) :
    s₁.isRebindable name = s₂.isRebindable name ∧ s₁.isFresh name = s₂.isFresh name ∧
      s₁.hasFunction name = s₂.hasFunction name := by
  refine ⟨?_, ?_, ?_⟩
  · exact hp.agree (·.isRebindable name) (fun _ => True) h
      (fun u _ hs hφ hc => u.isRebindable hs hφ hc name) trivial trivial trivial
  · exact hp.agree (·.isFresh name) (fun _ => True) h
      (fun u _ hs hφ hc => u.isFresh hs hφ hc name) trivial trivial trivial
  · exact hp.agree (·.hasFunction name) (fun _ => True) h
      (fun u _ _ _ hc => u.hasFunction hc name) trivial trivial trivial

end

end Site
end MutationLint
