import Mathlib.Data.List.Flatten
import Mathlib.Data.List.Perm.Basic
import Mathlib.Logic.Relation
import MutationLint.Node.Link
import MutationLint.Proofs.Node.FieldOrder

/-! Both traversals of a program, by their stacks, against the plain recursion. The walk calls
handlers as the recursion does, a node before what it holds and one child after another. Linking
takes the children in another order, and yet links every node once, to the node that holds it. -/

namespace MutationLint

namespace Site

/-! ### The walk -/

mutual

/-- The recursive traversal: the handlers of a node, then what each child in turn comes to. -/
def traverse {α : Type} (table : String → List α) (path : List Step) : Node → List (Site × α)
  | .mk l e cs =>
    (table l.name).map (⟨.mk l e cs, path⟩, ·) ++ traverseFrom table ⟨.mk l e cs, path⟩ 0 cs

def traverseFrom {α : Type} (table : String → List α) (parent : Site) :
    Nat → List (Role × Node) → List (Site × α)
  | _, [] => []
  | i, (role, n) :: rest =>
    traverse table (⟨parent.node, role, i⟩ :: parent.path) n ++
      traverseFrom table parent (i + 1) rest

end

section
variable {α : Type} (table : String → List α)

def calls (s : Site) : List (Site × α) := (table s.label.name).map (s, ·)

theorem traverseFrom_eq (parent : Site) (cs : List (Role × Node)) :
    ∀ i, traverseFrom table parent i cs =
      (parent.childrenFrom i cs).flatMap fun c => traverse table c.path c.node := by
  induction cs with
  | nil => intro i; rfl
  | cons c rest ih =>
    intro i
    obtain ⟨role, n⟩ := c
    rw [traverseFrom, ih, childrenFrom, List.flatMap_cons]
    rfl

theorem traverse_eq (s : Site) : traverse table s.path s.node =
    calls table s ++ s.children.flatMap fun c => traverse table c.path c.node := by
  obtain ⟨⟨l, e, cs⟩, path⟩ := s
  rw [traverse, traverseFrom_eq]
  rfl

/-- What is still to come from a stack is the traversal of each site on it. -/
theorem flatMap_calls_visit (stack : List Site) :
    (visit stack).flatMap (calls table) =
      stack.flatMap fun s => traverse table s.path s.node := by
  induction stack using visit.induct with
  | case1 => simp [visit]
  | case2 s rest ih =>
    rw [visit_cons, List.flatMap_cons, ih, List.flatMap_append, List.flatMap_cons, traverse_eq,
      List.append_assoc]

theorem dispatch_eq_traverse (program : Node) :
    dispatch (fun l => table l.name) program = traverse table [] program := by
  have h := flatMap_calls_visit table [root program]
  rw [List.flatMap_singleton] at h
  exact h

theorem filter_dispatch {program : Node} {s : Site} (hs : s ∈ walk program) :
    (dispatch (fun l => table l.name) program).filter (·.1.address == s.address) =
      calls table s := by
  obtain ⟨before, after, hsplit⟩ := List.append_of_mem hs
  have hnodup := walk_nodup program
  rw [hsplit, List.nodup_middle, List.nodup_cons] at hnodup
  have hothers : ∀ t ∈ before ++ after, (calls table t).filter (·.1.address == s.address) = [] := by
    intro t ht
    refine List.filter_eq_nil_iff.mpr fun c hc heq => hnodup.1 ?_
    obtain ⟨a, -, rfl⟩ := List.mem_map.mp hc
    have htw : t ∈ walk program := by
      rw [hsplit, List.mem_append, List.mem_cons]
      exact (List.mem_append.mp ht).imp_right Or.inr
    exact eq_of_address htw hs (beq_iff_eq.mp heq) ▸ ht
  have hself : (calls table s).filter (·.1.address == s.address) = calls table s := by
    refine List.filter_eq_self.mpr fun c hc => ?_
    obtain ⟨a, -, rfl⟩ := List.mem_map.mp hc
    exact beq_self_eq_true _
  have hnone (l : List Site) (hl : ∀ t ∈ l, t ∈ before ++ after) :
      (l.flatMap (calls table)).filter (·.1.address == s.address) = [] := by
    rw [List.filter_flatMap]
    exact List.flatMap_eq_nil_iff.mpr fun t ht => hothers t (hl t ht)
  show ((walk program).flatMap (calls table)).filter _ = _
  rw [hsplit, List.flatMap_append, List.flatMap_cons, List.filter_append, List.filter_append,
    hself, hnone before fun t ht => List.mem_append_left _ ht,
    hnone after fun t ht => List.mem_append_right _ ht, List.nil_append, List.append_nil]

end

/-- The sites of a program, each once, after its parent and after all that lies at or below its
earlier siblings. -/
structure DocumentOrder (program : Node) (visited : List Site) : Prop where
  once : visited.Nodup
  all : ∀ s, s ∈ visited ↔ Under (root program) s
  after_parent : ∀ p c, Under (root program) p → c ∈ p.children → [p, c].Sublist visited
  after_siblings : ∀ p a b t, Under (root program) p → [a, b].Sublist p.children → Under a t →
    [t, b].Sublist visited

/-- What is visited from a site on is visited, in this order, from any site above. -/
theorem Under.visit_sublist {r s : Site} (h : Under r s) : (visit [s]).Sublist (visit [r]) := by
  induction h with
  | refl => exact List.Sublist.refl _
  | @child p c _ hc ih =>
    refine List.Sublist.trans ?_ ih
    rw [visit_singleton p]
    have hin := (List.singleton_sublist.mpr hc).flatMap fun d => visit [d]
    rw [List.flatMap_singleton] at hin
    exact hin.cons p

theorem documentOrder_walk (program : Node) : DocumentOrder program (walk program) where
  once := walk_nodup program
  all s := mem_walk
  after_parent p c hp hc := by
    refine List.Sublist.trans ?_ hp.visit_sublist
    rw [visit_singleton]
    refine (List.singleton_sublist.mpr ?_).cons_cons p
    exact List.mem_flatMap.mpr ⟨c, hc, mem_visit_singleton.mpr .refl⟩
  after_siblings p a b t hp hab ht := by
    refine List.Sublist.trans ?_ hp.visit_sublist
    rw [visit_singleton]
    refine List.Sublist.cons p (List.Sublist.trans ?_ (hab.flatMap fun c => visit [c]))
    rw [List.flatMap_cons, List.flatMap_singleton]
    exact (List.singleton_sublist.mpr (mem_visit_singleton.mpr ht)).append
      (List.singleton_sublist.mpr (mem_visit_singleton.mpr .refl))

/-! ### Links -/

/-- A site as linking sees it: a node that is known by its address. -/
def placed (s : Site) : Address × Node := (s.address, s.node)

theorem map_placed_childrenFrom (s : Site) (cs : List (Role × Node)) :
    ∀ i, (s.childrenFrom i cs).map placed = Node.offspringFrom s.address i cs := by
  induction cs with
  | nil => intro i; rfl
  | cons c rest ih =>
    intro i
    obtain ⟨role, n⟩ := c
    rw [childrenFrom, List.map_cons, ih]
    rfl

theorem map_placed_children (s : Site) :
    s.children.map placed = Node.offspring s.address s.node :=
  map_placed_childrenFrom s s.node.children 0

theorem link_cons (s : Site) (rest : List Site) :
    Node.link ((s :: rest).map placed) = s.children.map (fun c => (c.address, s.address)) ++
      Node.link ((s.children.reverse ++ rest).map placed) := by
  rw [List.map_cons, placed, Node.link, ← map_placed_children, List.map_map, List.map_append,
    List.map_reverse]
  rfl

theorem visit_perm {a b : List Site} (h : a.Perm b) : (visit a).Perm (visit b) := by
  rw [visit_eq_flatMap a, visit_eq_flatMap b]
  exact h.flatMap fun s _ => List.Perm.refl _

/-- To prove something of all stacks, it may be assumed of the stack on which the children of a site
have taken its place, the last on top. -/
theorem stack_induction {P : List Site → Prop} (nil : P [])
    (cons : ∀ s rest, P (s.children.reverse ++ rest) → P (s :: rest)) (stack : List Site) :
    P stack := by
  induction hn : Node.weight (stack.map (·.node)) using Nat.strongRecOn generalizing stack with
  | _ k ih =>
    cases stack with
    | nil => exact nil
    | cons s rest =>
      refine cons s rest (ih _ ?_ _ rfl)
      have hweight := weight_children s
      simp only [Node.weight, List.map_append, List.map_reverse, List.map_cons,
        List.sum_append_nat, List.sum_reverse, List.sum_cons] at hn hweight ⊢
      omega

theorem perm_link (stack : List Site) :
    (stack.map address ++ (Node.link (stack.map placed)).map Prod.fst).Perm
      ((visit stack).map address) := by
  induction stack using stack_induction with
  | nil => simp [Node.link, visit]
  | cons s rest ih =>
    have hvisit := visit_perm ((List.reverse_perm s.children).append_right rest)
    have hstack : (rest.map address ++ s.children.map address).Perm
        ((s.children.reverse ++ rest).map address) := by
      rw [List.map_append, List.map_reverse]
      exact List.perm_append_comm.trans ((List.reverse_perm _).symm.append_right _)
    have hlink : (Node.link ((s :: rest).map placed)).map Prod.fst = s.children.map address ++
        (Node.link ((s.children.reverse ++ rest).map placed)).map Prod.fst := by
      rw [link_cons, List.map_append, List.map_map]
      rfl
    rw [hlink, visit_cons, List.map_cons, List.map_cons, List.cons_append, ← List.append_assoc]
    exact ((hstack.append_right _).trans (ih.trans (hvisit.map address))).cons _

theorem mem_link {stack : List Site} {a b : Address} :
    (a, b) ∈ Node.link (stack.map placed) ↔
      ∃ p ∈ visit stack, ∃ c ∈ p.children, a = c.address ∧ b = p.address := by
  induction stack using stack_induction with
  | nil => simp [Node.link, visit]
  | cons s rest ih =>
    have hvisit := visit_perm ((List.reverse_perm s.children).append_right rest)
    rw [link_cons, List.mem_append, ih, visit_cons, List.exists_mem_cons_iff, List.mem_map]
    refine or_congr ?_ ?_
    · simp only [Prod.mk.injEq, eq_comm]
    · simp only [hvisit.mem_iff]

/-- Every node but the root is linked once, to the node that holds it, and the links lead from any
node to the root. -/
structure Linked (program : Node) (links : List (Address × Address)) : Prop where
  covers : ((root program).address :: links.map Prod.fst).Perm ((walk program).map address)
  parentless : links.lookup (root program).address = none
  child : ∀ p ∈ walk program, ∀ c ∈ p.children, links.lookup c.address = some p.address
  reaches : ∀ s ∈ walk program,
    Relation.ReflTransGen (fun a b => links.lookup a = some b) s.address (root program).address

theorem linked_links (program : Node) : Linked program (Node.links program) := by
  have hcovers : ((root program).address :: (Node.links program).map Prod.fst).Perm
      ((walk program).map address) := perm_link [root program]
  have hnodup : ((walk program).map address).Nodup :=
    (walk_nodup program).map_on fun s hs t ht h => eq_of_address hs ht h
  rw [← hcovers.nodup_iff, List.nodup_cons] at hnodup
  have hchild : ∀ p ∈ walk program, ∀ c ∈ p.children,
      (Node.links program).lookup c.address = some p.address := by
    intro p hp c hc
    exact lookup_of_mem hnodup.2 (mem_link.mpr ⟨p, hp, c, hc, rfl, rfl⟩)
  refine ⟨hcovers, List.lookup_eq_none_iff.mpr fun p hp => ?_, hchild, fun s hs => ?_⟩
  · have hne : p.1 ≠ (root program).address := fun h => hnodup.1 (h ▸ List.mem_map_of_mem hp)
    simpa using hne.symm
  · induction mem_walk.mp hs with
    | refl => exact .refl
    | @child p c hp hc ih =>
      have hpw := mem_walk.mpr hp
      exact .head (hchild p hpw c hc) (ih hpw)

end Site

theorem SyntaxTree.label_program {source : Source} {t : SyntaxTree} {program : Node}
    (h : t.program source = .ok program) : program.label = .program := by
  rcases SyntaxTree.program_cases h with rfl | ⟨n, -, ⟨hl, rfl⟩ | ⟨-, rfl⟩⟩
  · rfl
  · exact hl
  · rfl

namespace Site

/-- The walk calls handlers exactly as the recursive traversal does: it enters every node once, in
document order, and calls the handlers of its kind there, each once and in their order. Linking
gives every node but the root the node that holds it for a parent, so that parents lead to the root;
in a program that is built this is of the kind of programs, and the children of each node stand part
by part in the order of its parts. -/
theorem handlers_called_in_preorder {α : Type} (table : String → List α) (program : Node) :
    dispatch (fun l => table l.name) program = traverse table [] program ∧
    DocumentOrder program (walk program) ∧
    (∀ s ∈ walk program,
      (dispatch (fun l => table l.name) program).filter (·.1.address == s.address) =
        (table s.label.name).map (s, ·)) ∧
    Linked program (Node.links program) ∧
    ∀ (source : Source) (t : SyntaxTree), t.program source = .ok program →
      (root program).label = .program ∧
        ∀ s ∈ walk program, s.children.map (·.node) = s.node.byRole := by
  refine ⟨dispatch_eq_traverse table program, documentOrder_walk program,
    fun s hs => filter_dispatch table hs, linked_links program, fun source t h => ?_⟩
  refine ⟨SyntaxTree.label_program h, fun s hs => ?_⟩
  rw [children, map_node_childrenFrom, SyntaxTree.map_children_eq_byRole h hs]

end Site
end MutationLint
