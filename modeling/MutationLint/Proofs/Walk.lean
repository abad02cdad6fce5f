import Mathlib.Data.List.Nodup
import MutationLint.Node.Walk

/-! Sites of a program. The walk visits exactly the sites that hang together with the root, each
once and before what it holds, and a site is told from the others by its address. -/

namespace MutationLint

namespace Site

/-- The second site is the first, or lies below it. -/
inductive Under (r : Site) : Site → Prop
  | refl : Under r r
  | child {s c : Site} : Under r s → c ∈ s.children → Under r c

theorem Under.trans {a b c : Site} (h : Under a b) (h' : Under b c) : Under a c := by
  induction h' with
  | refl => exact h
  | child _ hc ih => exact .child ih hc

theorem mem_childrenFrom {s c : Site} (cs : List (Role × Node)) :
    ∀ i, c ∈ s.childrenFrom i cs ↔
      ∃ j role n, cs[j]? = some (role, n) ∧ c = s.descend (i + j) role n := by
  induction cs with
  | nil => intro i; simp [childrenFrom]
  | cons x rest ih =>
    intro i
    obtain ⟨role, n⟩ := x
    simp only [childrenFrom, List.mem_cons, ih]
    constructor
    · rintro (rfl | ⟨j, role', n', hj, rfl⟩)
      · exact ⟨0, role, n, rfl, rfl⟩
      · exact ⟨j + 1, role', n', by simpa using hj, by rw [Nat.add_right_comm, Nat.add_assoc]⟩
    · rintro ⟨j, role', n', hj, rfl⟩
      cases j with
      | zero =>
        obtain ⟨rfl, rfl⟩ : role = role' ∧ n = n' := by simpa using hj
        exact Or.inl rfl
      | succ j =>
        exact Or.inr ⟨j, role', n', by simpa using hj, by rw [Nat.add_right_comm, Nat.add_assoc]⟩

theorem mem_children {s c : Site} : c ∈ s.children ↔
    ∃ i role n, s.node.children[i]? = some (role, n) ∧ c = s.descend i role n := by
  rw [children, mem_childrenFrom]
  simp only [Nat.zero_add]

theorem parent?_of_mem_children {s c : Site} (h : c ∈ s.children) : c.parent? = some s := by
  obtain ⟨i, role, n, -, rfl⟩ := mem_children.mp h
  rfl

theorem mem_children_of_mem_childrenIn {s c : Site} {role : Role} (h : c ∈ s.childrenIn role) :
    c ∈ s.children := List.mem_of_mem_filter h

/-! ### The walk is the preorder -/

theorem visit_cons (s : Site) (rest : List Site) :
    visit (s :: rest) = s :: visit (s.children ++ rest) := by
  rw [visit]

theorem visit_append (a b : List Site) : visit (a ++ b) = visit a ++ visit b := by
  induction a using visit.induct with
  | case1 => simp [visit]
  | case2 s rest ih =>
    rw [List.cons_append, visit_cons, visit_cons, ← List.append_assoc, ih, List.cons_append]

/-- A stack is worked off site by site, each with all that lies below it. -/
theorem visit_eq_flatMap (stack : List Site) : visit stack = stack.flatMap fun s => visit [s] := by
  induction stack with
  | nil => simp [visit]
  | cons s rest ih => rw [← List.singleton_append, visit_append, ih]; rfl

theorem visit_singleton (s : Site) : visit [s] = s :: s.children.flatMap fun c => visit [c] := by
  rw [visit_cons, List.append_nil, visit_eq_flatMap]

theorem under_of_mem_visit {stack : List Site} {s : Site} (h : s ∈ visit stack) :
    ∃ r ∈ stack, Under r s := by
  induction stack using visit.induct with
  | case1 => simp [visit] at h
  | case2 r rest ih =>
    rw [visit_cons] at h
    rcases List.mem_cons.mp h with rfl | h
    · exact ⟨s, List.mem_cons_self, .refl⟩
    · obtain ⟨q, hq, hs⟩ := ih h
      rcases List.mem_append.mp hq with hq | hq
      · exact ⟨r, List.mem_cons_self, (Under.child .refl hq).trans hs⟩
      · exact ⟨q, List.mem_cons_of_mem _ hq, hs⟩

theorem mem_visit_of_child {stack : List Site} {p c : Site} (hp : p ∈ visit stack)
    (hc : c ∈ p.children) : c ∈ visit stack := by
  induction stack using visit.induct with
  | case1 => simp [visit] at hp
  | case2 t rest ih =>
    rw [visit_cons] at hp ⊢
    refine List.mem_cons_of_mem _ ?_
    rcases List.mem_cons.mp hp with rfl | hp
    · rw [visit_append, visit_eq_flatMap]
      refine List.mem_append_left _ (List.mem_flatMap.mpr ⟨c, hc, ?_⟩)
      rw [visit_singleton]
      exact List.mem_cons_self
    · exact ih hp

theorem mem_visit_of_under {r s : Site} (h : Under r s) : s ∈ visit [r] := by
  induction h with
  | refl => rw [visit_singleton]; exact List.mem_cons_self
  | child _ hc ih => exact mem_visit_of_child ih hc

theorem mem_visit_singleton {r s : Site} : s ∈ visit [r] ↔ Under r s :=
  ⟨fun h => by simpa using under_of_mem_visit h, mem_visit_of_under⟩

theorem mem_walk {program : Node} {s : Site} : s ∈ walk program ↔ Under (root program) s :=
  mem_visit_singleton

theorem root_mem_walk (program : Node) : root program ∈ walk program := mem_walk.mpr .refl

theorem mem_walk_of_under {program : Node} {s t : Site} (h : s ∈ walk program) (hu : Under s t) :
    t ∈ walk program :=
  mem_walk.mpr ((mem_walk.mp h).trans hu)

theorem mem_walk_of_mem_children {program : Node} {s c : Site} (h : s ∈ walk program)
    (hc : c ∈ s.children) : c ∈ walk program :=
  mem_walk_of_under h (.child .refl hc)

theorem mem_walk_of_parent? {program : Node} {s p : Site} (h : s ∈ walk program)
    (hp : s.parent? = some p) : p ∈ walk program := by
  cases mem_walk.mp h with
  | refl => cases hp
  | child hs hc =>
    rw [parent?_of_mem_children hc] at hp
    cases hp
    exact mem_walk.mpr hs

theorem mem_children_of_parent? {program : Node} {s p : Site} (h : s ∈ walk program)
    (hp : s.parent? = some p) : s ∈ p.children := by
  cases mem_walk.mp h with
  | refl => cases hp
  | child _ hc =>
    rw [parent?_of_mem_children hc] at hp
    cases hp
    exact hc

theorem top_of_parent? {s p : Site} (h : s.parent? = some p) : p.top = s.top := by
  obtain ⟨n, path⟩ := s
  cases path with
  | nil => cases h
  | cons step path =>
    cases h
    cases path with
    | nil => rfl
    | cons next path => simp [top, List.getLast?_cons]

theorem top_of_mem_walk {program : Node} {s : Site} (h : s ∈ walk program) : s.top = program := by
  induction mem_walk.mp h with
  | refl => rfl
  | child hu hc ih =>
    rw [← top_of_parent? (parent?_of_mem_children hc)]
    exact ih (mem_walk.mpr hu)

theorem flatMap_preorder_children (s : Site) (cs : List (Role × Node)) :
    ∀ i, (s.childrenFrom i cs).flatMap (·.node.preorder) = Node.preorderAll cs := by
  induction cs with
  | nil => intro i; rfl
  | cons c rest ih =>
    intro i
    obtain ⟨role, n⟩ := c
    simp only [childrenFrom, List.flatMap_cons, ih, descend, Node.preorderAll]

theorem map_node_visit (stack : List Site) :
    (visit stack).map (·.node) = stack.flatMap (·.node.preorder) := by
  induction stack using visit.induct with
  | case1 => simp [visit]
  | case2 s rest ih =>
    rw [visit_cons, List.map_cons, ih, List.flatMap_append, children, flatMap_preorder_children,
      List.flatMap_cons, ← List.cons_append]
    cases s.node
    rfl

/-- The nodes come up in document order. -/
theorem map_node_walk (program : Node) : (walk program).map (·.node) = program.preorder := by
  rw [walk, map_node_visit]
  simp [root]

/-! ### Addresses -/

theorem address_descend (s : Site) (i : Nat) (role : Role) (n : Node) :
    (s.descend i role n).address = i :: s.address := rfl

theorem eq_root_of_address {program : Node} {s : Site} (h : s ∈ walk program)
    (ha : s.address = []) : s = root program := by
  cases mem_walk.mp h with
  | refl => rfl
  | child _ hc =>
    obtain ⟨i, role, n, -, rfl⟩ := mem_children.mp hc
    cases ha

theorem eq_of_address {program : Node} {s t : Site} (hs : s ∈ walk program)
    (ht : t ∈ walk program) (h : s.address = t.address) : s = t := by
  induction mem_walk.mp hs generalizing t with
  | refl => exact (eq_root_of_address ht h.symm).symm
  | @child p c hp hc ih =>
    obtain ⟨i, role, n, hi, rfl⟩ := mem_children.mp hc
    cases mem_walk.mp ht with
    | refl => cases h
    | @child q _ hq hd =>
      obtain ⟨j, role', n', hj, rfl⟩ := mem_children.mp hd
      rw [address_descend, address_descend] at h
      obtain ⟨rfl, hpq⟩ := List.cons.inj h
      obtain rfl := ih (mem_walk.mpr hp) (mem_walk.mpr hq) hpq
      rw [hi] at hj
      cases hj
      rfl

theorem suffix_of_under {r s : Site} (h : Under r s) : r.address <:+ s.address := by
  induction h with
  | refl => exact List.suffix_refl _
  | child _ hc ih =>
    obtain ⟨i, role, n, -, rfl⟩ := mem_children.mp hc
    exact ih.trans (List.suffix_cons _ _)

theorem childrenFrom_pairwise (s : Site) (cs : List (Role × Node)) :
    ∀ i, (s.childrenFrom i cs).Pairwise fun a b => a.address ≠ b.address := by
  induction cs with
  | nil => intro i; exact List.Pairwise.nil
  | cons c rest ih =>
    intro i
    obtain ⟨role, n⟩ := c
    refine List.Pairwise.cons ?_ (ih (i + 1))
    intro b hb
    obtain ⟨j, role', n', -, rfl⟩ := (mem_childrenFrom rest (i + 1)).mp hb
    rw [address_descend, address_descend]
    intro h
    have := (List.cons.inj h).1
    omega

theorem visit_singleton_nodup (s : Site) : (visit [s]).Nodup := by
  induction hn : s.node.size using Nat.strongRecOn generalizing s with
  | _ k ih =>
    rw [visit_singleton, List.nodup_cons, List.nodup_flatMap]
    refine ⟨fun h => ?_, fun c hc => ih c.node.size ?_ c rfl, ?_⟩
    · obtain ⟨c, hc, hs⟩ := List.mem_flatMap.mp h
      have hle := (suffix_of_under (mem_visit_singleton.mp hs)).length_le
      obtain ⟨i, role, n, -, rfl⟩ := mem_children.mp hc
      rw [address_descend, List.length_cons] at hle
      omega
    · obtain ⟨xs, ys, hxy⟩ := List.append_of_mem hc
      have := weight_children s
      simp only [Node.weight, hxy, List.map_append, List.map_cons, List.sum_append_nat,
        List.sum_cons] at this
      omega
    · refine (childrenFrom_pairwise s s.node.children 0).imp_of_mem ?_
      intro a b ha hb hne
      refine List.disjoint_left.mpr fun x hxa hxb => hne ?_
      -- two children with a common descendant have addresses of one length that end its address
      have ha' := suffix_of_under (mem_visit_singleton.mp hxa)
      have hb' := suffix_of_under (mem_visit_singleton.mp hxb)
      obtain ⟨i, role, n, -, rfl⟩ := mem_children.mp ha
      obtain ⟨j, role', n', -, rfl⟩ := mem_children.mp hb
      exact (List.suffix_of_suffix_length_le ha' hb' (by simp [address_descend])).eq_of_length
        (by simp [address_descend])

theorem walk_nodup (program : Node) : (walk program).Nodup := visit_singleton_nodup _

end Site
end MutationLint
