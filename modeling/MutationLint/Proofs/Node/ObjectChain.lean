import MutationLint.Exemption.Basic
import MutationLint.Proofs.Scope.Derivation

/-! The objects a node is built on, as a list. The walks that follow member accesses to the left
read it off: one takes its last node, the others look for a node of it that passes a test. -/

namespace MutationLint

namespace Node

/-- A walk through the children of a node that stops at its object. -/
theorem eq_of_object {α : Type} {f : Node → α} {g : List (Role × Node) → α}
    (hcons : ∀ c rest, g (c :: rest) = if c.1 = .object then f c.2 else g rest) (l : Label)
    (e : Extent) (cs : List (Role × Node)) :
    g cs = (((mk l e cs).child? .object).map f).getD (g []) := by
  rw [child?, children_mk]
  induction cs with
  | nil => rfl
  | cons c rest ih =>
    rw [hcons]
    by_cases hc : c.1 = .object <;> simp [hc, ih]

theorem leftMost_eq (n : Node) : n.leftMost =
    if n.isMember then ((n.child? .object).map leftMost).getD n else n := by
  obtain ⟨l, e, cs⟩ := n
  have hobject := eq_of_object (f := some ∘ leftMost) (g := leftMostOfObject)
    (fun ⟨role, _⟩ _ => by cases role <;> rfl) l e cs
  cases l with
  | member c o =>
    rw [leftMost, hobject]
    cases child? _ .object <;> rfl
  | _ => rfl

theorem reachesExports_eq (n : Node) : n.reachesExports = (n.isExports || n.isModuleExports ||
    n.isMember && ((n.child? .object).map reachesExports).getD false) := by
  obtain ⟨l, e, cs⟩ := n
  rw [reachesExports, eq_of_object (f := reachesExports) (g := objectReachesExports)
    (fun ⟨role, _⟩ _ => by cases role <;> rfl) l e cs]
  rfl

/-! ### Roots -/

def IsRoot (n : Node) : Prop := n.isMember = true → n.child? .object = none

/-- What holds of roots, and of a member access when it holds of its object, holds of all nodes. -/
theorem chain_induction {motive : Node → Prop} (root : ∀ n, n.IsRoot → motive n)
    (member : ∀ n m, n.isMember = true → n.child? .object = some m → motive m → motive n)
    (n : Node) : motive n := by
  induction hk : n.size using Nat.strongRecOn generalizing n with
  | _ k ih =>
    by_cases hn : n.isMember = true
    · cases hm : n.child? .object with
      | none => exact root n fun _ => hm
      | some m => exact member n m hn hm (ih m.size (hk ▸ size_lt_of_child? hm) m rfl)
    · exact root n fun h => absurd h hn

section
variable {n m : Node}

theorem leftMost_of_no_object (h : n.IsRoot) : n.leftMost = n := by
  rw [leftMost_eq]
  split_ifs with hn
  · rw [h hn]
    rfl
  · rfl

theorem leftMost_of_object (hn : n.isMember = true) (hm : n.child? .object = some m) :
    n.leftMost = m.leftMost := by
  rw [leftMost_eq, if_pos hn, hm]
  rfl

end

/-! ### The chain -/

mutual

/-- The node, its object, that object's object and so on through member accesses. -/
def chain : Node → List Node
  | .mk l e cs => .mk l e cs :: if isMember (.mk l e cs) then objectChain cs else []

def objectChain : List (Role × Node) → List Node
  | [] => []
  | (.object, n) :: _ => n.chain
  | _ :: rest => objectChain rest

end

theorem chain_eq (n : Node) :
    n.chain = n :: if n.isMember then ((n.child? .object).map chain).getD [] else [] := by
  obtain ⟨l, e, cs⟩ := n
  rw [chain, eq_of_object (f := chain) (g := objectChain)
    (fun ⟨role, _⟩ _ => by cases role <;> rfl) l e cs]
  rfl

section
variable {n m : Node}

theorem chain_of_isRoot (h : n.IsRoot) : n.chain = [n] := by
  rw [chain_eq]
  split_ifs with hn
  · rw [h hn]
    rfl
  · rfl

theorem chain_of_object (hn : n.isMember = true) (hm : n.child? .object = some m) :
    n.chain = n :: m.chain := by
  rw [chain_eq, if_pos hn, hm]
  rfl

end

theorem leftMost_eq_getLast (n : Node) : n.chain.getLast? = some n.leftMost := by
  induction n using chain_induction with
  | root n hr =>
    rw [chain_of_isRoot hr, leftMost_of_no_object hr]
    rfl
  | member n m hn hm ih =>
    rw [chain_of_object hn hm, List.getLast?_cons, ih, leftMost_of_object hn hm, Option.getD_some]

/-- A walk that stops at the first node to pass a test finds it anywhere on the chain. -/
theorem eq_chain_any {f p : Node → Bool}
    (hf : ∀ n, f n = (p n || n.isMember && ((n.child? .object).map f).getD false)) (n : Node) :
    f n = n.chain.any p := by
  induction n using chain_induction with
  | root n hr =>
    rw [hf, chain_of_isRoot hr, List.any_cons, List.any_nil]
    by_cases hn : n.isMember = true
    · simp [hr hn]
    · simp [hn]
  | member n m hn hm ih =>
    rw [hf, chain_of_object hn hm, List.any_cons, hn, hm, ← ih]
    rfl

theorem reachesExports_eq_any (n : Node) :
    n.reachesExports = n.chain.any fun m => m.isExports || m.isModuleExports :=
  eq_chain_any reachesExports_eq n

end Node

namespace Pattern

variable {patterns : List Pattern}

theorem isMember_of_matchesMember {p : Pattern} {n : Node} (h : p.matchesMember n = true) :
    n.isMember = true := by
  unfold matchesMember at h
  exact (Bool.and_eq_true _ _ ▸ h).1

theorem anyMatches_eq (n : Node) : anyMatches patterns n = (patterns.any (·.matchesMember n) ||
    n.isMember && ((n.child? .object).map (anyMatches patterns)).getD false) := by
  have hmember : (n.isMember && patterns.any (·.matchesMember n)) =
      patterns.any (·.matchesMember n) := by
    rw [Bool.and_eq_right_iff_imp, List.any_eq_true]
    rintro ⟨p, -, hp⟩
    exact isMember_of_matchesMember hp
  obtain ⟨l, e, cs⟩ := n
  rw [anyMatches, Bool.and_or_distrib_left, hmember,
    Node.eq_of_object (f := anyMatches patterns) (g := anyMatchesObject patterns)
      (fun ⟨role, _⟩ _ => by cases role <;> rfl) l e cs]
  rfl

theorem anyMatches_of_object {n m : Node} (hn : n.isMember = true)
    (hm : n.child? .object = some m) : anyMatches patterns n =
      (patterns.any (·.matchesMember n) || anyMatches patterns m) := by
  rw [anyMatches_eq, hn, hm]
  rfl

theorem anyMatches_eq_any (n : Node) :
    anyMatches patterns n = n.chain.any fun m => patterns.any (·.matchesMember m) :=
  Node.eq_chain_any anyMatches_eq n

end Pattern
end MutationLint
