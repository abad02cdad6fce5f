import MutationLint.Node.Unfold
import MutationLint.Proofs.SyntaxTree.Mutations

/-! What is read off a syntax tree to build its node: which children, in which order, and whether a
child is built itself or only something in it. The table of slots says so form by form, and layouts
follow it. -/

namespace MutationLint

namespace SyntaxTree

def isContent (c : SyntaxTree) : Bool := c.named && !c.isTrivia

def contentPlaces (t : SyntaxTree) : List (SyntaxTree × Nat) := t.places.filter (·.1.isContent)

theorem map_fst_filter_places (t : SyntaxTree) (keep : SyntaxTree → Bool) :
    (t.places.filter fun p => keep p.1).map (·.1) = t.children.filter keep := by
  have h : t.children = t.places.map (·.1) := by rw [places, List.zipIdx_map_fst]
  rw [h, List.filter_map]
  rfl

theorem map_fst_contentPlaces (t : SyntaxTree) : t.contentPlaces.map (·.1) = t.content :=
  map_fst_filter_places t isContent

end SyntaxTree

inductive Manner where
  /-- The child is built. -/
  | whole
  /-- Its content is built. -/
  | content
  /-- The first of its content is built. -/
  | first
  /-- Nothing in it is built. -/
  | nothing
  deriving DecidableEq, Repr

namespace Manner

def inside : Manner → SyntaxTree → List (SyntaxTree × Nat)
  | .whole, c => c.places
  | .content, c => c.contentPlaces
  | .first, c => c.contentPlaces.take 1
  | .nothing, _ => []

def trees : Manner → SyntaxTree → List SyntaxTree
  | .whole, c => [c]
  | m, c => (m.inside c).map (·.1)

theorem trees_content (c : SyntaxTree) : Manner.content.trees c = c.content :=
  c.map_fst_contentPlaces

theorem trees_first (c : SyntaxTree) : Manner.first.trees c = c.content.head?.toList := by
  rw [← c.map_fst_contentPlaces]
  cases h : c.contentPlaces <;> simp [trees, inside, h]

theorem inside_sublist (m : Manner) (c : SyntaxTree) : (m.inside c).Sublist c.places := by
  cases m with
  | whole => exact List.Sublist.refl _
  | content => exact List.filter_sublist
  | first => exact (List.take_sublist 1 _).trans List.filter_sublist
  | nothing => exact List.nil_sublist _

end Manner

/-- A child that is read, its place among the children, and how it is read. -/
structure Read where
  child : SyntaxTree
  place : Nat
  manner : Manner

namespace Read

def trees (r : Read) : List SyntaxTree := r.manner.trees r.child

end Read

/-- A part of a form: which children hold it, whether all that do are read or only the first, and
how. -/
structure Slot where
  picks : SyntaxTree → Bool
  several : Bool
  manner : SyntaxTree → Manner

namespace Slot

def reads (slot : Slot) (t : SyntaxTree) : List Read :=
  let picked := t.places.filter fun p => slot.picks p.1
  (if slot.several then picked else picked.take 1).map fun p => ⟨p.1, p.2, slot.manner p.1⟩

def field (name : String) (manner : SyntaxTree → Manner) : Slot :=
  ⟨fun c => c.field == some name, false, manner⟩

def firstWhere (wanted : SyntaxTree → Bool) (manner : Manner) : Slot :=
  ⟨fun c => c.isContent && wanted c, false, fun _ => manner⟩

def eachWhere (wanted : SyntaxTree → Bool) (manner : Manner) : Slot :=
  ⟨fun c => c.isContent && wanted c, true, fun _ => manner⟩

def built (name : String) : Slot := field name fun _ => .whole

def parameters : Slot := field "parameters" fun _ => .content

def clause (name : String) : Slot := field name fun c =>
  match c.form with
  | .emptyStatement => .nothing
  | .expressionStatement => .first
  | _ => .whole

def key (name : String) : Slot := field name fun c => if c.isComputedKey then .first else .whole

/-- The arguments of a call, or the template that is called on. -/
def arguments : Slot :=
  field "arguments" fun c => if c.kind == "arguments" then .content else .whole

/-- The left side of a default value, of which a name is only spelled. -/
def target : Slot := field "left" fun c => if c.form.isName then .nothing else .whole

def superclass : Slot := firstWhere (·.kind == "class_heritage") .first

def first : Slot := firstWhere (fun _ => true) .whole

def each : Slot := eachWhere (fun _ => true) .whole

end Slot

namespace SyntaxTree

def hasField (t : SyntaxTree) (name : String) : Bool := (t.field? name).isSome

/-- The slots of a tree, in the order in which they are read. -/
def slots (t : SyntaxTree) : List Slot :=
  match t.form with
  | .trivia | .emptyStatement | .thisWord | .superWord | .shorthand | .identifier | .literal => []
  | .parenthesized | .expressionStatement | .returnStatement | .spread | .rest | .cast => [.first]
  | .program | .block | .classBody | .object | .array | .objectPattern | .arrayPattern | .other =>
    [.each]
  | .declaration => [.eachWhere (·.form == .declarator) .whole]
  | .template => [.eachWhere (·.kind == "template_substitution") .content]
  | .declarator => [.built "name", .built "value"]
  | .forStatement =>
    [.clause "initializer", .clause "condition", .clause "increment", .built "body"]
  | .exportStatement =>
    if t.hasField "declaration" then [.built "declaration"]
    else if t.hasField "value" then [.built "value"]
    else [.firstWhere (·.kind.endsWith "_declaration") .whole]
  | .functionDeclaration | .functionExpression => [.built "name", .parameters, .built "body"]
  | .arrowFunction =>
    [if t.hasField "parameter" then .built "parameter" else .parameters, .built "body"]
  | .classDeclaration | .classExpression => [.built "name", .superclass, .built "body"]
  | .method => [.key "name", .parameters, .built "body"]
  | .member => [.built "object", .built "property"]
  | .subscript => [.built "object", .built "index"]
  | .call => [.built "function", .arguments]
  | .construct => [.built "constructor", .arguments]
  | .assignment | .assignmentPattern => [.built "left", .built "right"]
  | .update => [if t.hasField "argument" then .built "argument" else .first]
  | .conditional => [.built "condition", .built "consequence", .built "alternative"]
  | .pair => [.key "key", .built "value"]
  | .defaultedProperty => [.target, .built "right"]
  | .parameter => [.built "pattern", .built "value"]

def reads (t : SyntaxTree) : List Read := t.slots.flatMap (·.reads t)

end SyntaxTree

/-! ### Layouts follow the slots -/

namespace Slot

def trees (slot : Slot) (t : SyntaxTree) : List SyntaxTree := (slot.reads t).flatMap Read.trees

theorem trees_of_several {slot : Slot} (h : slot.several = true) (t : SyntaxTree) :
    slot.trees t = (t.children.filter slot.picks).flatMap fun c => (slot.manner c).trees c := by
  rw [trees, reads, if_pos h, List.flatMap_map, ← t.map_fst_filter_places, List.flatMap_map]
  rfl

theorem trees_of_one {slot : Slot} (h : slot.several = false) (t : SyntaxTree) :
    slot.trees t = (t.children.find? slot.picks).toList.flatMap fun c =>
      (slot.manner c).trees c := by
  have hfind : (t.children.find? slot.picks).toList =
      ((t.places.filter fun p => slot.picks p.1).take 1).map (·.1) := by
    rw [← List.head?_filter, ← t.map_fst_filter_places]
    cases t.places.filter fun p => slot.picks p.1 <;> rfl
  rw [trees, reads, if_neg (by simp [h]), List.flatMap_map, hfind, List.flatMap_map]
  rfl

theorem trees_field (name : String) (manner : SyntaxTree → Manner) (t : SyntaxTree) :
    (field name manner).trees t = (t.field? name).toList.flatMap fun c => (manner c).trees c :=
  trees_of_one rfl t

theorem trees_built (t : SyntaxTree) (name : String) :
    (built name).trees t = (t.field? name).toList := by
  rw [built, trees_field]
  cases t.field? name <;> rfl

theorem trees_parameters (t : SyntaxTree) : parameters.trees t = t.parameters := by
  rw [parameters, trees_field, SyntaxTree.parameters]
  cases t.field? "parameters" <;> simp [Manner.trees_content]

theorem trees_clause (t : SyntaxTree) (name : String) :
    (clause name).trees t = (t.clause? name).toList := by
  rw [clause, trees_field, SyntaxTree.clause?]
  cases t.field? name with
  | none => rfl
  | some c =>
    simp only [Option.toList_some, List.flatMap_cons, List.flatMap_nil, List.append_nil,
      Option.bind_some]
    cases c.form with
    | emptyStatement => rfl
    | expressionStatement => exact Manner.trees_first c
    | _ => rfl

theorem trees_key (t : SyntaxTree) (name : String) :
    (key name).trees t = (t.key? name).toList := by
  rw [key, trees_field, SyntaxTree.key?]
  cases t.field? name with
  | none => rfl
  | some c =>
    simp only [Option.toList_some, List.flatMap_cons, List.flatMap_nil, List.append_nil,
      Option.bind_some]
    split
    · exact Manner.trees_first c
    · rfl

theorem trees_arguments (t : SyntaxTree) : arguments.trees t = t.argumentTrees := by
  rw [arguments, trees_field, SyntaxTree.argumentTrees]
  cases t.field? "arguments" with
  | none => rfl
  | some c =>
    simp only [Option.toList_some, List.flatMap_cons, List.flatMap_nil, List.append_nil]
    split
    · exact Manner.trees_content c
    · rfl

theorem trees_target (t : SyntaxTree) : target.trees t = (t.field? "left").toList.flatMap fun c =>
    if c.form.isName then [] else [c] := by
  rw [target, trees_field]
  congr 1
  funext c
  split <;> rfl

theorem trees_firstWhere (t : SyntaxTree) (wanted : SyntaxTree → Bool) (manner : Manner) :
    (firstWhere wanted manner).trees t =
      (t.content.find? wanted).toList.flatMap manner.trees := by
  rw [firstWhere, trees_of_one rfl, SyntaxTree.content, List.find?_filter]
  simp only [SyntaxTree.isContent, Bool.decide_and, Bool.decide_eq_true]

theorem trees_eachWhere (t : SyntaxTree) (wanted : SyntaxTree → Bool) (manner : Manner) :
    (eachWhere wanted manner).trees t = (t.content.filter wanted).flatMap manner.trees := by
  rw [eachWhere, trees_of_several rfl, SyntaxTree.content, List.filter_filter]
  simp only [SyntaxTree.isContent, Bool.and_comm]

theorem trees_first (t : SyntaxTree) : first.trees t = t.content.head?.toList := by
  rw [first, trees_firstWhere, ← List.head?_filter, List.filter_true]
  cases t.content.head? <;> rfl

theorem trees_each (t : SyntaxTree) : each.trees t = t.content := by
  rw [each, trees_eachWhere, List.filter_true]
  exact List.flatMap_singleton' t.content

theorem trees_superclass (t : SyntaxTree) : superclass.trees t = t.superclass?.toList := by
  rw [superclass, trees_firstWhere, SyntaxTree.superclass?]
  cases t.content.find? (·.kind == "class_heritage") <;> simp [Manner.trees_first]

end Slot

namespace SyntaxTree

open Layout

theorem content_of_kindless {t : SyntaxTree} (h : t.declarationKind? = none) : t.content = [] := by
  rw [declarationKind?, Option.map_eq_none_iff, Option.or_eq_none_iff] at h
  rw [content, List.head?_eq_none_iff.mp h.2, List.filter_nil]

theorem trees_exportSlots (t : SyntaxTree) :
    (if t.hasField "declaration" then [Slot.built "declaration"]
      else if t.hasField "value" then [Slot.built "value"]
      else [Slot.firstWhere (·.kind.endsWith "_declaration") .whole]).flatMap (·.trees t) =
      t.exportLayout.subtrees := by
  rw [hasField, hasField, exportLayout, exported?]
  cases hd : t.field? "declaration" with
  | some d => simp [Slot.trees_built, hd, Layout.subtrees, subtrees_one]
  | none =>
    cases hv : t.field? "value" with
    | some v => simp [Slot.trees_built, hv, Layout.subtrees, subtrees_declared]
    | none =>
      cases hc : t.content.find? (·.kind.endsWith "_declaration") <;>
        simp [Slot.trees_firstWhere, hc, Manner.trees, Layout.subtrees, subtrees_one]

theorem trees_defaultedSlots (t : SyntaxTree) :
    Slot.target.trees t ++ (t.field? "right").toList = t.defaultedLayout.subtrees := by
  rw [Slot.trees_target, defaultedLayout]
  cases t.field? "left" with
  | none => simp [Layout.subtrees, subtrees_group, filterMap_pieces]
  | some l =>
    cases hn : l.form.isName <;>
      simp only [hn, Layout.subtrees, subtrees_group, subtrees_spelled, List.cons_append,
        List.nil_append, List.append_nil, List.flatMap_cons, List.flatMap_nil, Option.toList_some,
        List.filterMap_cons, subtree?_spelled, subtree?_built, filterMap_pieces, reduceIte,
        Bool.false_eq_true]

/-- The trees that are built for a tree are those its layout asks for. -/
theorem trees_reads (t : SyntaxTree) : t.reads.flatMap Read.trees = t.layout.subtrees := by
  have hslots : t.reads.flatMap Read.trees = t.slots.flatMap (·.trees t) := by
    rw [reads, List.flatMap_assoc]
    rfl
  rw [hslots, slots, layout]
  cases hf : t.form <;>
    simp only [functionParts, classParts, methodLayout, updateLayout, pairLayout, Layout.subtrees,
      subtrees_all, subtrees_one, subtrees_group, filterMap_pieces, List.flatMap_append,
      List.flatMap_cons, List.flatMap_nil, List.filterMap_append, List.append_nil,
      List.append_assoc, Slot.trees_built, Slot.trees_parameters, Slot.trees_clause,
      Slot.trees_key, Slot.trees_arguments, Slot.trees_first, Slot.trees_each,
      Slot.trees_superclass]
  case parenthesized => cases t.content.head? <;> rfl
  case declaration =>
    rw [Slot.trees_eachWhere]
    cases hk : t.declarationKind? with
    | some k => exact (List.flatMap_singleton' _).trans (subtrees_all _ _).symm
    | none => rw [content_of_kindless hk]; rfl
  case exportStatement => exact trees_exportSlots t
  case arrowFunction =>
    rw [hasField, arrowParameters]
    cases hp : t.field? "parameter" <;> simp [Slot.trees_built, Slot.trees_parameters, hp]
  case template =>
    rw [Slot.trees_eachWhere]
    exact congrArg (List.flatMap · _) (funext Manner.trees_content)
  case update =>
    rw [hasField]
    cases ha : t.field? "argument" <;> simp [Slot.trees_built, Slot.trees_first, ha]
  case shorthand => rfl
  case defaultedProperty => exact trees_defaultedSlots t

theorem mem_places_of_reads {t : SyntaxTree} {r : Read} (h : r ∈ t.reads) :
    (r.child, r.place) ∈ t.places := by
  obtain ⟨slot, -, hr⟩ := List.mem_flatMap.mp h
  obtain ⟨p, hp, rfl⟩ := List.mem_map.mp hr
  have hpicked : p ∈ t.places.filter fun p => slot.picks p.1 := by
    split at hp
    · exact hp
    · exact List.mem_of_mem_take hp
  exact List.mem_of_mem_filter hpicked

/-! ### Trees that can be read in order -/

mutual

/-- The tree inside the parentheses; empty ones hold none. -/
def unwrap? : SyntaxTree → Option SyntaxTree
  | .mk k n f e cs =>
    if Form.ofKind k = .parenthesized then unwrapFirst? cs else some (.mk k n f e cs)

def unwrapFirst? : List SyntaxTree → Option SyntaxTree
  | [] => none
  | c :: rest => if c.isContent then c.unwrap? else unwrapFirst? rest

end

theorem unwrapFirst?_eq (cs : List SyntaxTree) :
    unwrapFirst? cs = (cs.filter isContent).head?.bind unwrap? := by
  induction cs with
  | nil => rfl
  | cons c rest ih =>
    rw [unwrapFirst?]
    cases hc : c.isContent with
    | true => rw [if_pos rfl, List.filter_cons_of_pos hc]; rfl
    | false => rw [if_neg (by decide), ih, List.filter_cons_of_neg (by simp [hc])]

theorem unwrap?_eq (t : SyntaxTree) :
    t.unwrap? = if t.form = .parenthesized then t.content.head?.bind unwrap? else some t := by
  obtain ⟨k, n, f, e, cs⟩ := t
  rw [unwrap?, unwrapFirst?_eq]
  rfl

/-- Reading a tree passes over no mutation and goes from left to right. -/
structure Orderly (t : SyntaxTree) : Prop where
  /-- The children are read in their order, and none twice. -/
  inOrder : t.reads.Pairwise (·.place < ·.place)
  /-- No mutation stands in a child that is not read. -/
  unread : ∀ p ∈ t.places, p.2 ∉ t.reads.map (·.place) → p.1.MutationFree
  /-- A child of which only something inside is read is no mutation, and none stands in the rest. -/
  opened : ∀ r ∈ t.reads, r.manner ≠ .whole → r.child.mutation? = none ∧
    ∀ p ∈ r.child.places, p.2 ∉ (r.manner.inside r.child).map (·.2) → p.1.MutationFree
  /-- The pattern of a parameter, out of its parentheses, is no mutation. -/
  pattern : t.form = .parameter → ((t.field? "pattern").bind unwrap?).bind mutation? = none

instance (t : SyntaxTree) : Decidable t.Orderly :=
  decidable_of_iff
    ((t.reads.Pairwise (·.place < ·.place)) ∧
      (∀ p ∈ t.places, p.2 ∉ t.reads.map (·.place) → p.1.MutationFree) ∧
      (∀ r ∈ t.reads, r.manner ≠ .whole → r.child.mutation? = none ∧
        ∀ p ∈ r.child.places, p.2 ∉ (r.manner.inside r.child).map (·.2) → p.1.MutationFree) ∧
      (t.form = .parameter → ((t.field? "pattern").bind unwrap?).bind mutation? = none))
    ⟨fun ⟨a, b, c, d⟩ => ⟨a, b, c, d⟩, fun ⟨a, b, c, d⟩ => ⟨a, b, c, d⟩⟩

/-- Reading a tree is orderly, and so is in turn reading each tree that is built for it. -/
inductive Readable : SyntaxTree → Prop
  | mk {t : SyntaxTree} : t.Orderly → (∀ c ∈ t.layout.subtrees, Readable c) → Readable t

def readableUpTo : Nat → SyntaxTree → Bool
  | 0, _ => false
  | height + 1, t => decide t.Orderly && t.layout.subtrees.all (readableUpTo height)

theorem readable_of_upTo {height : Nat} :
    ∀ {t : SyntaxTree}, readableUpTo height t = true → t.Readable := by
  induction height with
  | zero => intro t h; cases h
  | succ height ih =>
    intro t h
    rw [readableUpTo, Bool.and_eq_true, List.all_eq_true] at h
    exact .mk (of_decide_eq_true h.1) fun c hc => ih (h.2 c hc)

section
variable {t : SyntaxTree} (h : t.Orderly)
include h

theorem Orderly.sites_child {r : Read} (hr : r ∈ t.reads) :
    r.trees.flatMap sites = r.child.sites := by
  by_cases hm : r.manner = .whole
  · rw [Read.trees, hm]
    exact List.flatMap_singleton _ _
  · obtain ⟨hnone, hfree⟩ := h.opened r hr hm
    have hsub := r.manner.inside_sublist r.child
    have htrees : r.trees = (r.manner.inside r.child).map (·.1) := by
      rw [Read.trees]
      cases hr : r.manner with
      | whole => exact absurd hr hm
      | content | first | nothing => rfl
    rw [htrees, List.flatMap_map, sites_eq, site?, hnone,
      flatMap_selection (fun _ hp => hsub.subset hp) (r.child.places_pairwise.sublist hsub) hfree]
    rfl

/-- The mutations of a tree are its own and those of the trees its layout asks for. -/
theorem Orderly.sites_eq : t.sites = t.site?.toList ++ t.layout.subtrees.flatMap sites := by
  have hall : (t.reads.map fun r => (r.child, r.place)).flatMap (fun p => p.1.sites) =
      t.children.flatMap sites := by
    refine flatMap_selection ?_ ?_ ?_
    · intro p hp
      obtain ⟨r, hr, rfl⟩ := List.mem_map.mp hp
      exact mem_places_of_reads hr
    · exact List.pairwise_map.mpr h.inOrder
    · intro p hp hout
      rw [List.map_map] at hout
      exact h.unread p hp hout
  have hchild : t.reads.flatMap (fun r => r.trees.flatMap sites) =
      t.reads.flatMap (fun r => r.child.sites) :=
    List.flatMap_congr fun r hr => h.sites_child hr
  rw [SyntaxTree.sites_eq, ← hall, List.flatMap_map, ← hchild, ← List.flatMap_assoc, trees_reads]

end

end SyntaxTree
end MutationLint
