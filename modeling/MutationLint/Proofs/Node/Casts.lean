import MutationLint.Proofs.Node.View
import MutationLint.Proofs.Scope.Rebinding

/-! Type casts in mutation targets. The object chain of a target goes through member accesses and
ends at the first cast, so that a cast at its end hides what is inside: no test for exports,
prototypes or exceptions reads on. Only the name of the variable is looked for under the cast, and
only right below it. -/

namespace MutationLint

def Label.chainRole? : Label → Option Role
  | .cast => some .expression
  | .member _ _ => some .object
  | _ => none

namespace Node

def withChild (n : Node) (role : Role) (child : Node) : Node :=
  .mk n.label n.extent (n.children.map fun c => if c.1 = role then (role, child) else c)

/-- The second node is the first with some of the casts on its object chain, those inside other
casts included, replaced by what they cast. -/
inductive Uncast : Node → Node → Prop
  | refl (n : Node) : Uncast n n
  | drop {n e e' : Node} : n.label = .cast → n.child? .expression = some e → Uncast e e' →
      Uncast n e'
  | inside {n m m' : Node} {role : Role} : n.label.chainRole? = some role →
      n.child? role = some m → Uncast m m' → Uncast n (n.withChild role m')

/-! ### Other children -/

section
variable {n m : Node} {role other : Role} {child : Node}

@[simp] theorem label_withChild : (n.withChild role child).label = n.label := rfl

theorem find?_withChild : (n.withChild role child).children.find? (·.1 == other) =
    (n.children.find? (·.1 == other)).map fun c => if c.1 = role then (role, child) else c := by
  rw [withChild, children_mk, List.find?_map]
  congr 2
  funext c
  by_cases hc : c.1 = role <;> simp [hc]

theorem child?_withChild_self (h : n.child? role = some m) :
    (n.withChild role child).child? role = some child := by
  obtain ⟨c, hc, rfl⟩ := Option.map_eq_some_iff.mp h
  have hrole : c.1 = role := by simpa using List.find?_some hc
  simp [child?, find?_withChild, hc, hrole]

theorem child?_withChild_of_ne (h : other ≠ role) :
    (n.withChild role child).child? other = n.child? other := by
  rw [child?, find?_withChild, child?]
  cases hc : n.children.find? (·.1 == other) with
  | none => rfl
  | some c =>
    have hother : c.1 = other := by simpa using List.find?_some hc
    simp [hother, h]

theorem surface_withChild (h : role.isRead = false) :
    (n.withChild role child).surface = n.surface := by
  obtain ⟨l, e, cs⟩ := n
  have hread : (cs.map fun c => if c.1 = role then (role, child) else c).filter (·.1.isRead) =
      cs.filter (·.1.isRead) := by
    induction cs with
    | nil => rfl
    | cons c rest ih =>
      by_cases hc : c.1 = role
      · simp [hc, h, ih]
      · simp [hc, List.filter_cons, ih]
  simp only [withChild, surface, surfaceAll_eq, label_mk, children_mk, hread]

end

/-! ### Chains that end in a cast -/

theorem isMember_of_cast {n : Node} (h : n.label = .cast) : n.isMember = false := by
  simp [isMember, h]

/-- The object chain of a node ends in the cast. -/
inductive OnCast (cast : Node) : Node → Prop
  | self : cast.label = .cast → OnCast cast cast
  | member {n m : Node} : n.isMember = true → n.child? .object = some m → OnCast cast m →
      OnCast cast n

theorem onCast_leftMost {n : Node} (h : n.leftMost.label = .cast) : OnCast n.leftMost n := by
  induction hk : n.size using Nat.strongRecOn generalizing n with
  | _ k ih =>
    by_cases ho : n.isMember = true ∧ (n.child? .object).isSome = true
    · obtain ⟨m, hm⟩ := Option.isSome_iff_exists.mp ho.2
      have hleft := leftMost_of_object ho.1 hm
      rw [hleft] at h ⊢
      exact .member ho.1 hm (ih m.size (hk ▸ size_lt_of_child? hm) h rfl)
    · have hleft : n.leftMost = n := by
        refine leftMost_of_no_object fun hn => ?_
        simpa [hn] using ho
      rw [hleft] at h ⊢
      exact .self h

namespace OnCast

variable {cast n : Node} (h : OnCast cast n)
include h

theorem leftMost : n.leftMost = cast := by
  induction h with
  | self hl => exact leftMost_of_no_object fun hn => by simp [isMember_of_cast hl] at hn
  | member hn hm _ ih => rw [leftMost_of_object hn hm, ih]

theorem base? : n.base? = (cast.child? .expression).bind Node.identifier? := by
  have hl : cast.label = .cast := by
    induction h with
    | self hl => exact hl
    | member _ _ _ ih => exact ih
  rw [Node.base?, h.leftMost, name?, hl]

theorem identifier? : n.identifier? = none := by
  cases h with
  | self hl => simp [Node.identifier?, hl]
  | member hn _ _ =>
    obtain ⟨computed, optional, hl⟩ := isMember_iff.mp hn
    simp [Node.identifier?, hl]

theorem not_named (name : String) : n.isNamed name = false := by
  have hnone := h.identifier?
  unfold Node.identifier? at hnone
  unfold isNamed
  split at hnone <;> simp_all

theorem not_this : n.label ≠ .thisExpression := by
  cases h with
  | self hl => simp [hl]
  | member hn _ _ =>
    intro hl
    simp [isMember, hl] at hn

theorem object {m : Node} (hn : n.isMember = true) (hm : n.child? .object = some m) :
    OnCast cast m := by
  cases h with
  | self hl => simp [isMember_of_cast hl] at hn
  | member _ hm' hon =>
    cases hm.symm.trans hm'
    exact hon

/-! ### What a cast hides -/

theorem not_moduleExports : n.isModuleExports = false := by
  unfold isModuleExports
  cases hm : n.child? .object with
  | none => simp
  | some m =>
    by_cases hn : n.isMember = true
    · simp [(h.object hn hm).not_named]
    · simp [hn]

theorem not_reachesExports : n.reachesExports = false := by
  induction h with
  | self hl =>
    have hon : OnCast cast cast := .self hl
    simp [reachesExports_eq, isMember_of_cast hl, isExports, hon.not_named, hon.not_moduleExports]
  | @member n m hn hm hon ih =>
    have hon' : OnCast cast n := .member hn hm hon
    simp [reachesExports_eq n, hm, ih, isExports, hon'.not_named, hon'.not_moduleExports]

theorem not_isPrototype : n.isPrototype = false := by
  unfold isPrototype
  by_cases hn : n.isMember = true
  · cases hm : n.child? .object with
    | none => simp
    | some owner =>
      have howner := h.object hn hm
      by_cases ho : owner.isMember = true
      · cases hk : owner.child? .object with
        | none => simp [hk]
        | some base => simp [hk, (howner.object ho hk).identifier?]
      · simp [ho]
  · simp [hn]

end OnCast

/-! ### Dropping casts -/

theorem Uncast.eq_of_identifier? {n n' : Node} {name : String} (h : Uncast n n')
    (hname : n.identifier? = some name) : n' = n := by
  cases h with
  | refl => rfl
  | drop hl _ _ => simp [Node.identifier?, hl] at hname
  | inside hrole _ _ => simp [identifier?_eq_some_iff.mp hname, Label.chainRole?] at hrole

/-- What dropping casts keeps of a target whose variable stands right below the last cast: the
variable, the form of member accesses, and all exceptions that match. -/
structure Keeps (n n' : Node) : Prop where
  base? : n'.base? = n.base?
  member : n.isMember = true → n'.label = n.label ∧ n'.child? .property = n.child? .property
  exceptions : ∀ patterns, Pattern.anyMatches patterns n = true →
    Pattern.anyMatches patterns n' = true

theorem Keeps.refl (n : Node) : Keeps n n := ⟨rfl, fun _ => ⟨rfl, rfl⟩, fun _ h => h⟩

end Node

namespace Pattern

open Node

theorem not_anyMatches_of_cast {patterns : List Pattern} {n : Node} (h : n.label = .cast) :
    anyMatches patterns n = false := by
  simp [anyMatches_eq, isMember_of_cast h, matchesMember]

/-- A side that allows no name allows every name. -/
theorem allows_of_none {side : Option Text} (h : allows side none = true) (name : Option String) :
    allows side name = true := by
  cases side with
  | none => rfl
  | some wanted => simp [allows] at h

/-- A pattern that matches a member of something built on a cast names no object, unless that is a
member access itself. So it matches also when casts inside are dropped. -/
theorem matchesMember_withChild {p : Pattern} {cast n m m' : Node} (hm : n.child? .object = some m)
    (hcast : OnCast cast m)
    (hmember : m.isMember = true → m'.label = m.label ∧ m'.child? .property = m.child? .property)
    (h : p.matchesMember n = true) : p.matchesMember (n.withChild .object m') = true := by
  have hproperty : (n.withChild .object m').child? .property = n.child? .property :=
    child?_withChild_of_ne (by decide)
  have hobject : allows p.object m.objectName? = true → allows p.object m'.objectName? = true := by
    intro hallows
    by_cases hn : m.isMember = true
    · obtain ⟨hl, hp⟩ := hmember hn
      simpa only [objectName?, hl, hp] using hallows
    · have hnone : m.objectName? = none := by
        cases hcast with
        | self hl => simp [objectName?, hl]
        | member hn' _ _ => exact absurd hn' hn
      exact allows_of_none (hnone ▸ hallows) _
  unfold matchesMember at h ⊢
  rw [hproperty, child?_withChild_self hm]
  rw [hm] at h
  simp only [isMember, label_withChild, Bool.and_eq_true, Option.bind_some, Option.map_some,
    Option.getD_some] at h ⊢
  refine ⟨h.1, ?_⟩
  have h := h.2
  split_ifs at h ⊢ with hthis
  · exact absurd (by simpa using h) hcast.not_this
  · simp only [Bool.and_eq_true] at h ⊢
    exact ⟨⟨h.1.1, hobject h.1.2⟩, h.2⟩

end Pattern

namespace Node

theorem Uncast.keeps {cast n n' : Node} {name : String} (h : Uncast n n')
    (hcast : OnCast cast n) (hname : (cast.child? .expression).bind Node.identifier? = some name) :
    Keeps n n' := by
  -- of a cast only the variable can be reached, and nothing else is kept of it
  have hkept {n n' : Node} (hl : n.label = .cast) (hbase : n'.base? = n.base?) : Keeps n n' := by
    refine ⟨hbase, fun hn => ?_, fun patterns hp => ?_⟩
    · simp [isMember_of_cast hl] at hn
    · rw [Pattern.not_anyMatches_of_cast hl] at hp
      cases hp
  have hinner {n e : Node} (hon : OnCast cast n) (hl : n.label = .cast)
      (he : n.child? .expression = some e) : n.base? = some name ∧ e.identifier? = some name := by
    have hbase : n.base? = some name := hon.base?.trans hname
    refine ⟨hbase, ?_⟩
    rwa [(OnCast.self hl).base?, he] at hbase
  induction h with
  | refl n => exact .refl n
  | @drop n e e' hl he hdrop _ =>
    obtain ⟨hbase, hid⟩ := hinner hcast hl he
    obtain rfl := hdrop.eq_of_identifier? hid
    exact hkept hl ((Site.base?_of_identifier? hid).trans hbase.symm)
  | @inside n m m' role hrole hm hinside ih =>
    by_cases hn : n.isMember = true
    · obtain rfl : role = .object := by
        obtain ⟨computed, optional, hl⟩ := isMember_iff.mp hn
        simpa [hl, Label.chainRole?, eq_comm] using hrole
      have hm' : (n.withChild .object m').child? .object = some m' := child?_withChild_self hm
      have hn' : (n.withChild .object m').isMember = true := hn
      have hon := hcast.object hn hm
      have hkeeps := ih hon
      refine ⟨?_, fun _ => ⟨rfl, child?_withChild_of_ne (by decide)⟩, fun patterns hp => ?_⟩
      · rw [Node.base?, leftMost_of_object hn' hm', Node.base?, leftMost_of_object hn hm]
        exact hkeeps.base?
      · rw [Pattern.anyMatches_of_object hn hm, Bool.or_eq_true] at hp
        rw [Pattern.anyMatches_of_object hn' hm', Bool.or_eq_true]
        refine hp.imp (fun hp => ?_) (hkeeps.exceptions patterns)
        obtain ⟨p, hmem, hmatch⟩ := List.any_eq_true.mp hp
        exact List.any_eq_true.mpr
          ⟨p, hmem, Pattern.matchesMember_withChild hm hon hkeeps.member hmatch⟩
    · have hl : n.label = .cast := by
        cases hcast with
        | self hl => exact hl
        | member hn' _ _ => exact absurd hn' hn
      obtain rfl : role = .expression := by simpa [hl, Label.chainRole?, eq_comm] using hrole
      obtain ⟨hbase, hid⟩ := hinner hcast hl hm
      obtain rfl := hinside.eq_of_identifier? hid
      refine hkept hl ?_
      have hself : OnCast (n.withChild .expression m') (n.withChild .expression m') := .self hl
      rw [hself.base?, child?_withChild_self hm, hbase]
      exact hid

end Node
end MutationLint
