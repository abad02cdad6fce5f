import Mathlib.Data.List.Sort
import MutationLint.SyntaxTree.Form

/-! The mutations in a syntax tree, in document order. -/

namespace MutationLint

inductive Mutation where
  | assignment
  | update
  | call
  | construct
  deriving DecidableEq, Repr

namespace Mutation

def names : List (String × Mutation) :=
  [("assignment_expression", .assignment), ("augmented_assignment_expression", .assignment),
    ("update_expression", .update), ("call_expression", .call), ("new_expression", .construct)]

def ofForm? : Form → Option Mutation
  | .assignment => some .assignment
  | .update => some .update
  | .call => some .call
  | .construct => some .construct
  | _ => none

theorem lookup_names (kind : String) : names.lookup kind = ofForm? (.ofKind kind) := by
  cases h : Form.names.lookup kind with
  | some f =>
    have hforms : ∀ p ∈ Form.names, names.lookup p.1 = ofForm? p.2 := by decide
    obtain ⟨before, after, hsplit, -⟩ := List.lookup_eq_some_iff.mp h
    rw [Form.ofKind, h]
    exact hforms (kind, f) (by rw [hsplit]; simp)
  | none =>
    have hnames : ∀ p ∈ names, ∃ q ∈ Form.names, q.1 = p.1 := by decide
    rw [Form.ofKind, h]
    refine List.lookup_eq_none_iff.mpr fun p hp => ?_
    obtain ⟨q, hq, he⟩ := hnames p hp
    exact he ▸ List.lookup_eq_none_iff.mp h q hq

end Mutation

namespace SyntaxTree

def mutation? (t : SyntaxTree) : Option Mutation := Mutation.names.lookup t.kind

theorem mutation?_eq (t : SyntaxTree) : t.mutation? = Mutation.ofForm? t.form :=
  Mutation.lookup_names t.kind

mutual

def preorder : SyntaxTree → List SyntaxTree
  | .mk k n f e cs => .mk k n f e cs :: preorderAll cs

def preorderAll : List SyntaxTree → List SyntaxTree
  | [] => []
  | t :: rest => t.preorder ++ preorderAll rest

end

theorem preorderAll_eq (ts : List SyntaxTree) : preorderAll ts = ts.flatMap preorder := by
  induction ts with
  | nil => rfl
  | cons t rest ih => rw [preorderAll, ih, List.flatMap_cons]

theorem preorder_eq (t : SyntaxTree) : t.preorder = t :: t.children.flatMap preorder := by
  obtain ⟨k, n, f, e, cs⟩ := t
  rw [preorder, preorderAll_eq]
  rfl

def site? (t : SyntaxTree) : Option (Mutation × Extent) := t.mutation?.map (·, t.extent)

def sites (t : SyntaxTree) : List (Mutation × Extent) := t.preorder.filterMap site?

theorem sites_eq (t : SyntaxTree) : t.sites = t.site?.toList ++ t.children.flatMap sites := by
  rw [sites, preorder_eq, List.filterMap_cons, List.filterMap_flatMap]
  cases t.site? <;> rfl

def MutationFree (t : SyntaxTree) : Prop := ∀ s ∈ t.preorder, s.mutation? = none

instance (t : SyntaxTree) : Decidable t.MutationFree :=
  inferInstanceAs (Decidable (∀ s ∈ t.preorder, s.mutation? = none))

theorem MutationFree.sites_eq_nil {t : SyntaxTree} (h : t.MutationFree) : t.sites = [] := by
  refine List.filterMap_eq_nil_iff.mpr fun s hs => ?_
  rw [site?, h s hs, Option.map_none]

/-! ### Children by their places -/

def places (t : SyntaxTree) : List (SyntaxTree × Nat) := t.children.zipIdx

theorem places_pairwise (t : SyntaxTree) : t.places.Pairwise (·.2 < ·.2) := by
  have h : (t.places.map (·.2)).Pairwise (· < ·) := by
    rw [places, List.zipIdx_map_snd]
    exact List.pairwise_lt_range'
  exact List.pairwise_map.mp h

theorem eq_of_mem_places {t : SyntaxTree} {p q : SyntaxTree × Nat} (hp : p ∈ t.places)
    (hq : q ∈ t.places) (h : p.2 = q.2) : p = q := by
  rw [places, List.mem_zipIdx_iff_getElem?] at hp hq
  rw [h, hq] at hp
  exact Prod.ext (Option.some.inj hp).symm h

theorem flatMap_places {β : Type} (t : SyntaxTree) (f : SyntaxTree → List β) :
    t.places.flatMap (fun p => f p.1) = t.children.flatMap f := by
  rw [← List.flatMap_map, places, List.zipIdx_map_fst]

theorem flatMap_filter {α β : Type} {f : α → List β} {keep : α → Bool} {as : List α}
    (h : ∀ a ∈ as, keep a = false → f a = []) : (as.filter keep).flatMap f = as.flatMap f := by
  induction as with
  | nil => rfl
  | cons a rest ih =>
    have ih := ih fun b hb => h b (List.mem_cons_of_mem a hb)
    cases hk : keep a with
    | true => rw [List.filter_cons_of_pos hk, List.flatMap_cons, List.flatMap_cons, ih]
    | false =>
      rw [List.filter_cons_of_neg (by simp [hk]), List.flatMap_cons, h a List.mem_cons_self hk,
        List.nil_append, ih]

/-- Some of the children, in order, have all the mutations when the others have none. -/
theorem flatMap_selection {t : SyntaxTree} {selection : List (SyntaxTree × Nat)}
    (hmem : ∀ p ∈ selection, p ∈ t.places) (horder : selection.Pairwise (·.2 < ·.2))
    (hfree : ∀ p ∈ t.places, p.2 ∉ selection.map (·.2) → p.1.MutationFree) :
    selection.flatMap (fun p => p.1.sites) = t.children.flatMap sites := by
  let keep : SyntaxTree × Nat → Bool := fun p => decide (p.2 ∈ selection.map (·.2))
  -- both are strictly increasing in the places, and have the same members
  have hkept : selection = t.places.filter keep := by
    have : Std.Antisymm fun p q : SyntaxTree × Nat => p.2 < q.2 :=
      ⟨fun p q h h' => absurd (Nat.lt_trans h h') (Nat.lt_irrefl _)⟩
    have : Std.Irrefl fun p q : SyntaxTree × Nat => p.2 < q.2 := ⟨fun p => Nat.lt_irrefl _⟩
    refine horder.eq_of_mem_iff (t.places_pairwise.filter keep) fun p => ?_
    rw [List.mem_filter]
    constructor
    · exact fun hp => ⟨hmem p hp, decide_eq_true (List.mem_map_of_mem hp)⟩
    · rintro ⟨hp, hk⟩
      obtain ⟨q, hq, he⟩ := List.mem_map.mp (of_decide_eq_true hk)
      exact eq_of_mem_places (hmem q hq) hp he ▸ hq
  rw [hkept, flatMap_filter, flatMap_places]
  exact fun p hp hk => (hfree p hp (of_decide_eq_false hk)).sites_eq_nil

end SyntaxTree
end MutationLint
