import Mathlib.Order.Lattice
import MutationLint.Proofs.Walk
import MutationLint.Scope.Freshness

/-! Freshness by derivation: a name is fresh when its nearest declaration gives it a fresh value,
and a value is fresh by its form or by the names it is built on. The relation knows nothing of
circles; a derivation is finite, so a circle has none. A derivation of a given height is what a
search to that depth finds. -/

namespace MutationLint

namespace Site

/-- The node owns a declaration of the name. -/
def Owns (s : Site) (name : String) : Prop := ∃ d ∈ s.declarations, d.declares name

/-- The first node that owns a declaration of the name, on the way from a site up to and including
the end of its variable scope. -/
inductive Nearest (name : String) : Site → Site → Prop
  | here {s : Site} : s.Owns name → Nearest name s s
  | up {s p owner : Site} : ¬ s.Owns name → s.label.endsVariableScope = false →
      s.parent? = some p → Nearest name p owner → Nearest name s owner

mutual

/-- The name has a fresh value as seen from the site. -/
inductive Fresh : String → Site → Prop
  | declared {name : String} {s owner d a : Site} {e : Node} : Nearest name s owner →
      d ∈ owner.declarations → d.declarator? name = some a → a.node.child? .init = some e →
      FreshInit e d → Fresh name s

/-- The expression, as an initial value in the declaration, is fresh. -/
inductive FreshInit : Node → Site → Prop
  | container {e : Node} {d : Site} : e.label.isContainer → FreshInit e d
  | literal {e : Node} {d : Site} : e.label.isLiteral → FreshInit e d
  | reference {e : Node} {d p : Site} {name : String} : e.label.isReference →
      e.base? = some name → d.parent? = some p → Fresh name p → FreshInit e d
  | conditional {e c a : Node} {d : Site} : e.label.isConditional →
      e.child? .consequent = some c → e.child? .alternate = some a →
      FreshInit c d → FreshInit a d → FreshInit e d

end

/-! ### The nearest owner is what the look-up finds -/

theorem mem_declarationsOf {owner d : Site} {name : String} :
    d ∈ owner.declarationsOf name ↔ d ∈ owner.declarations ∧ d.declares name := List.mem_filter

theorem mem_children_of_mem_declarations {owner d : Site} (h : d ∈ owner.declarations) :
    d ∈ owner.children := List.mem_of_mem_filter h

theorem parent?_of_mem_declarations {owner d : Site} (h : d ∈ owner.declarations) :
    d.parent? = some owner :=
  parent?_of_mem_children (mem_children_of_mem_declarations h)

theorem declares_of_declarator? {d a : Site} {name : String} (h : d.declarator? name = some a) :
    d.declares name := by
  rw [declares, h]
  rfl

theorem mem_children_of_declarator? {d a : Site} {name : String}
    (h : d.declarator? name = some a) : a ∈ d.children := by
  have ha : a ∈ d.declarators := List.mem_of_find?_eq_some h
  unfold declarators at ha
  split at ha
  · exact mem_children_of_mem_childrenIn ha
  · cases ha

theorem isEmpty_declarationsOf {s : Site} {name : String} :
    (s.declarationsOf name).isEmpty = false ↔ s.Owns name := by
  rw [List.isEmpty_eq_false_iff_exists_mem]
  constructor
  · rintro ⟨d, hd⟩
    exact ⟨d, mem_declarationsOf.mp hd⟩
  · rintro ⟨d, hd⟩
    exact ⟨d, mem_declarationsOf.mpr hd⟩

/-- A way up is the site itself and then, unless it stops there, the way up from the parent. -/
theorem upTo_eq (stops : Label → Bool) (s : Site) :
    upTo stops s.node s.path = s :: if stops s.label then [] else
      (s.parent?.map fun p => upTo stops p.node p.path).getD [] := by
  obtain ⟨n, path⟩ := s
  cases path with
  | nil => simp [upTo, parent?]
  | cons step path => rfl

theorem declaring?_of_owns {s : Site} {name : String} (h : s.Owns name) :
    s.declaring? name = some s := by
  rw [declaring?, variableScope, upTo_eq, List.find?_cons_of_pos]
  rw [isEmpty_declarationsOf.mpr h]
  rfl

theorem declaring?_of_not_owns {s : Site} {name : String} (h : ¬ s.Owns name) :
    s.declaring? name =
      if s.label.endsVariableScope then none else s.parent?.bind (·.declaring? name) := by
  rw [declaring?, variableScope, upTo_eq, List.find?_cons_of_neg]
  · cases s.label.endsVariableScope <;> cases s.parent? <;> rfl
  · rw [Bool.not_eq_true, Bool.not_eq_false', ← Bool.not_eq_false]
    exact fun he => h (isEmpty_declarationsOf.mp he)

theorem nearest_of_declaring? {name : String} {owner : Site} :
    ∀ (path : List Step) (n : Node), declaring? ⟨n, path⟩ name = some owner →
      Nearest name ⟨n, path⟩ owner := by
  intro path
  induction path with
  | nil =>
    intro n h
    by_cases ho : Owns ⟨n, []⟩ name
    · rw [declaring?_of_owns ho] at h
      cases h
      exact .here ho
    · rw [declaring?_of_not_owns ho] at h
      simp [parent?] at h
  | cons step path ih =>
    intro n h
    by_cases ho : Owns ⟨n, step :: path⟩ name
    · rw [declaring?_of_owns ho] at h
      cases h
      exact .here ho
    · rw [declaring?_of_not_owns ho] at h
      cases he : Label.endsVariableScope (label ⟨n, step :: path⟩) with
      | true => simp [he] at h
      | false => exact .up ho he rfl (ih step.parent (by simpa [he, parent?] using h))

theorem declaring?_eq_some_iff {name : String} {s owner : Site} :
    s.declaring? name = some owner ↔ Nearest name s owner := by
  constructor
  · exact nearest_of_declaring? s.path s.node
  · intro h
    induction h with
    | here ho => exact declaring?_of_owns ho
    | up ho he hp _ ih => rw [declaring?_of_not_owns ho, he, hp]; exact ih

theorem Nearest.mem_walk {name : String} {s owner : Site} {program : Node}
    (h : Nearest name s owner) (hs : s ∈ walk program) : owner ∈ walk program := by
  induction h with
  | here _ => exact hs
  | up _ _ hp _ ih => exact ih (mem_walk_of_parent? hs hp)

end Site

namespace Node

theorem outcomesIn_eq (role : Role) (cs : List (Role × Node)) :
    outcomesIn role cs = match cs.find? (·.1 == role) with
      | none => [none]
      | some c => c.2.outcomes := by
  induction cs with
  | nil => rfl
  | cons c rest ih =>
    obtain ⟨r, n⟩ := c
    by_cases h : r = role
    · simp [outcomesIn, h]
    · simp [outcomesIn, h, ih]

theorem outcomes_of_not_conditional {e : Node} (h : e.label.isConditional = false) :
    e.outcomes = [some e] := by
  obtain ⟨l, extent, cs⟩ := e
  cases l <;> first | rfl | cases h

theorem size_le_sizeAll {c : Role × Node} {cs : List (Role × Node)} (h : c ∈ cs) :
    c.2.size ≤ sizeAll cs := by
  induction cs with
  | nil => cases h
  | cons x rest ih =>
    obtain ⟨role, n⟩ := x
    simp only [sizeAll]
    rcases List.mem_cons.mp h with rfl | h
    · exact Nat.le_add_right _ _
    · have := ih h
      omega

theorem size_lt_of_child? {n c : Node} {role : Role} (h : n.child? role = some c) :
    c.size < n.size := by
  obtain ⟨x, hx, rfl⟩ := Option.map_eq_some_iff.mp h
  have := size_le_sizeAll (List.mem_of_find?_eq_some hx)
  rw [size_eq n]
  omega

end Node

namespace Site

/-! ### Initial values -/

section
variable {f g : String → Bool}

/-- One of the expressions a value may come from is fresh; a missing one is not. -/
def outcomeIsFresh (f : String → Bool) : Option Node → Bool
  | none => false
  | some v => v.label.isContainer || v.label.isLiteral ||
      (v.label.isReference && (v.base?.map f).getD false)

theorem initIsFresh_some (e : Node) :
    initIsFresh f (some e) = e.outcomes.all (outcomeIsFresh f) := by
  rw [initIsFresh]
  congr 1
  funext o
  cases o with
  | none => rfl
  | some v => cases h : v.base? <;> simp [outcomeIsFresh, h]

theorem initIsFresh_of_not_conditional {e : Node} (h : e.label.isConditional = false) :
    initIsFresh f (some e) = outcomeIsFresh f (some e) := by
  rw [initIsFresh_some, Node.outcomes_of_not_conditional h, List.all_cons, List.all_nil,
    Bool.and_true]

theorem initIsFresh_of_conditional {e : Node} (h : e.label.isConditional = true) :
    initIsFresh f (some e) =
      (initIsFresh f (e.child? .consequent) && initIsFresh f (e.child? .alternate)) := by
  obtain ⟨l, extent, cs⟩ := e
  have hb (role : Role) : (Node.outcomesIn role cs).all (outcomeIsFresh f) =
      initIsFresh f (Node.child? (.mk l extent cs) role) := by
    rw [Node.outcomesIn_eq, Node.child?, Node.children_mk]
    cases cs.find? (·.1 == role) with
    | none => rfl
    | some c => exact (initIsFresh_some c.2).symm
  cases l with
  | conditional => rw [← hb .consequent, ← hb .alternate, initIsFresh_some, Node.outcomes,
      List.all_append]
  | _ => cases h

/-- More fresh names make no initial value less fresh. -/
theorem initIsFresh_mono (h : ∀ name, f name = true → g name = true) {init : Option Node}
    (hi : initIsFresh f init = true) : initIsFresh g init = true := by
  cases init with
  | none => cases hi
  | some e =>
    rw [initIsFresh_some, List.all_eq_true] at hi ⊢
    intro o ho
    have hv := hi o ho
    cases o with
    | none => cases hv
    | some v =>
      cases hb : v.base? with
      | none => simpa [outcomeIsFresh, hb] using hv
      | some name =>
        simp only [outcomeIsFresh, hb, Option.map_some, Option.getD_some, Bool.or_eq_true,
          Bool.and_eq_true] at hv ⊢
        exact hv.imp_right fun hr => ⟨hr.1, h name hr.2⟩

end

/-! ### Derivations of bounded height -/

/-- Some binding of the name that the nearest owner holds passes a test of the owner and the
declarator. -/
def anyBinding (name : String) (start : Site) (test : Site → Site → Bool) : Bool :=
  match start.declaring? name with
  | none => false
  | some owner =>
    (owner.declarationsOf name).any fun d =>
      match d.declarator? name with
      | none => false
      | some a => test owner a

theorem anyBinding_iff {name : String} {s : Site} {test : Site → Site → Bool} :
    anyBinding name s test = true ↔ ∃ owner d a, Nearest name s owner ∧
      d ∈ owner.declarations ∧ d.declarator? name = some a ∧ test owner a = true := by
  rw [anyBinding]
  constructor
  · intro h
    split at h
    · cases h
    · rename_i owner ho
      obtain ⟨d, hd, h⟩ := List.any_eq_true.mp h
      split at h
      · cases h
      · rename_i a ha
        exact ⟨owner, d, a, declaring?_eq_some_iff.mp ho, (mem_declarationsOf.mp hd).1, ha, h⟩
  · rintro ⟨owner, d, a, ho, hd, ha, h⟩
    rw [declaring?_eq_some_iff.mpr ho]
    refine List.any_eq_true.mpr ⟨d, mem_declarationsOf.mpr ⟨hd, declares_of_declarator? ha⟩, ?_⟩
    rw [ha]
    exact h

/-- The name has a derivation of at most the given height. -/
def freshAt : Nat → String → Site → Bool
  | 0, _, _ => false
  | height + 1, name, start => anyBinding name start fun owner a =>
      initIsFresh (fun other => freshAt height other owner) (a.node.child? .init)

theorem freshAt_succ_iff {height : Nat} {name : String} {s : Site} :
    freshAt (height + 1) name s = true ↔ ∃ owner d a, Nearest name s owner ∧
      d ∈ owner.declarations ∧ d.declarator? name = some a ∧
      initIsFresh (fun other => freshAt height other owner) (a.node.child? .init) = true :=
  anyBinding_iff

theorem freshAt_succ {height : Nat} : ∀ {name : String} {s : Site},
    freshAt height name s = true → freshAt (height + 1) name s = true := by
  induction height with
  | zero => intro name s h; cases h
  | succ height ih =>
    intro name s h
    obtain ⟨owner, d, a, ho, hd, ha, h⟩ := freshAt_succ_iff.mp h
    exact freshAt_succ_iff.mpr ⟨owner, d, a, ho, hd, ha, initIsFresh_mono (fun _ => ih) h⟩

theorem freshAt_mono {m n : Nat} (hmn : m ≤ n) {name : String} {s : Site}
    (h : freshAt m name s = true) : freshAt n name s = true := by
  induction hmn with
  | refl => exact h
  | step _ ih => exact freshAt_succ ih

theorem freshInit_of_initIsFresh {f : String → Bool} {d p : Site} (hp : d.parent? = some p)
    (hf : ∀ name, f name = true → Fresh name p) :
    ∀ (k : Nat) (e : Node), e.size ≤ k → initIsFresh f (some e) = true → FreshInit e d := by
  intro k
  induction k with
  | zero => intro e he; have := e.size_pos; omega
  | succ k ih =>
    intro e he h
    cases hc : e.label.isConditional with
    | true =>
      rw [initIsFresh_of_conditional hc, Bool.and_eq_true] at h
      obtain ⟨h1, h2⟩ := h
      cases hb1 : e.child? .consequent with
      | none => rw [hb1] at h1; cases h1
      | some c =>
        cases hb2 : e.child? .alternate with
        | none => rw [hb2] at h2; cases h2
        | some a =>
          have hc1 := Node.size_lt_of_child? hb1
          have hc2 := Node.size_lt_of_child? hb2
          exact .conditional hc hb1 hb2 (ih c (by omega) (hb1 ▸ h1)) (ih a (by omega) (hb2 ▸ h2))
    | false =>
      rw [initIsFresh_of_not_conditional hc, outcomeIsFresh, Bool.or_eq_true, Bool.or_eq_true] at h
      rcases h with (h | h) | h
      · exact .container h
      · exact .literal h
      · obtain ⟨hr, hn⟩ := Bool.and_eq_true_iff.mp h
        cases hb : e.base? with
        | none => rw [hb] at hn; cases hn
        | some name => exact .reference hr hb hp (hf name (by simpa [hb] using hn))

theorem fresh_of_freshAt {height : Nat} : ∀ {name : String} {s : Site},
    freshAt height name s = true → Fresh name s := by
  induction height with
  | zero => intro name s h; cases h
  | succ height ih =>
    intro name s h
    obtain ⟨owner, d, a, ho, hd, ha, h⟩ := freshAt_succ_iff.mp h
    cases he : a.node.child? .init with
    | none => rw [he] at h; cases h
    | some e =>
      refine .declared ho hd ha he ?_
      exact freshInit_of_initIsFresh (parent?_of_mem_declarations hd) (fun _ => ih) e.size e
        (Nat.le_refl _) (he ▸ h)

theorem isConditional_of_fresh_label {l : Label}
    (h : (l.isContainer || l.isLiteral || l.isReference) = true) : l.isConditional = false := by
  cases l <;> first | rfl | cases h

/-- A derivation has a height; that of an initial value is that of the names it is built on. -/
theorem exists_heights :
    (∀ name s, Fresh name s → ∃ height, freshAt height name s = true) ∧
      ∀ e d, FreshInit e d → ∀ p, d.parent? = some p →
        ∃ height, initIsFresh (fun name => freshAt height name p) (some e) = true := by
  refine ⟨@Fresh.rec _ _ ?declared ?container ?literal ?reference ?conditional,
    @FreshInit.rec _ _ ?declared ?container ?literal ?reference ?conditional⟩
  case declared =>
    intro name s owner d a e ho hd ha he _ ih
    obtain ⟨height, h⟩ := ih owner (parent?_of_mem_declarations hd)
    exact ⟨height + 1, freshAt_succ_iff.mpr ⟨owner, d, a, ho, hd, ha, he ▸ h⟩⟩
  case container =>
    intro e d hc p _
    refine ⟨0, ?_⟩
    rw [initIsFresh_of_not_conditional (isConditional_of_fresh_label (by simp [hc]))]
    simp [outcomeIsFresh, hc]
  case literal =>
    intro e d hl p _
    refine ⟨0, ?_⟩
    rw [initIsFresh_of_not_conditional (isConditional_of_fresh_label (by simp [hl]))]
    simp [outcomeIsFresh, hl]
  case reference =>
    intro e d p name hr hb hp _ ih q hq
    obtain ⟨height, h⟩ := ih
    cases hp.symm.trans hq
    refine ⟨height, ?_⟩
    rw [initIsFresh_of_not_conditional (isConditional_of_fresh_label (by simp [hr]))]
    simp [outcomeIsFresh, hr, hb, h]
  case conditional =>
    intro e c a d hc hb1 hb2 _ _ ih1 ih2 p hp
    obtain ⟨m, hm⟩ := ih1 p hp
    obtain ⟨n, hn⟩ := ih2 p hp
    refine ⟨max m n, ?_⟩
    rw [initIsFresh_of_conditional hc, hb1, hb2, Bool.and_eq_true]
    exact ⟨initIsFresh_mono (fun _ => freshAt_mono (le_max_left m n)) hm,
      initIsFresh_mono (fun _ => freshAt_mono (le_max_right m n)) hn⟩

/-- Derivations are what unbounded searches find. -/
theorem fresh_iff_exists_freshAt {name : String} {s : Site} :
    Fresh name s ↔ ∃ height, freshAt height name s = true :=
  ⟨exists_heights.1 name s, fun ⟨_, h⟩ => fresh_of_freshAt h⟩

theorem freshInit_iff_exists_freshAt {e : Node} {d p : Site} (hp : d.parent? = some p) :
    FreshInit e d ↔
      ∃ height, initIsFresh (fun name => freshAt height name p) (some e) = true :=
  ⟨fun h => exists_heights.2 e d h p hp, fun ⟨_, h⟩ =>
    freshInit_of_initIsFresh hp (fun _ => fresh_of_freshAt) e.size e (Nat.le_refl _) h⟩

end Site
end MutationLint
