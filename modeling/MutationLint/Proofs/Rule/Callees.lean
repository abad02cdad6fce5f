import Mathlib.Data.List.TakeWhile
import MutationLint.Proofs.Node.View
import MutationLint.Rule.Check

/-! Callees by their names. A callee is written as one text, with a dot between an object and its
property, and that text is split at its last dot again. Where the names themselves hold no dot and
are not empty, nothing is lost on the way: the text gives the callee's parts back. So the mutating
functions are those of `Object` and lodash and no others, and a method that is listed as ignored is
no other method. -/

namespace MutationLint

/-- A name that can be told from what is around it. -/
def PlainName (name : String) : Prop := name ≠ "" ∧ '.' ∉ name.toList

instance (name : String) : Decidable (PlainName name) := inferInstanceAs (Decidable (_ ∧ _))

/-- How a callee is put together, as far as it has a name. -/
inductive CalleeShape where
  | bare (name : String)
  | member (object property : String)
  deriving DecidableEq

namespace CalleeShape

def written : CalleeShape → String
  | .bare name => name
  | .member object property => object ++ "." ++ property

def Plain : CalleeShape → Prop
  | .bare name => PlainName name
  | .member object property => PlainName object ∧ PlainName property

end CalleeShape

namespace Node

inductive HasShape (callee : Node) : CalleeShape → Prop
  | bare {name : String} : callee.label = .identifier name → HasShape callee (.bare name)
  | member {optional : Bool} {object property : Node} {o p : String} :
      callee.label = .member false optional → callee.child? .object = some object →
      object.label = .identifier o → callee.child? .property = some property →
      property.label = .identifier p → HasShape callee (.member o p)

def NamesPlain (callee : Node) : Prop :=
  ∀ n, n = callee ∨ callee.child? .object = some n ∨ callee.child? .property = some n →
    ∀ name, n.label = .identifier name → PlainName name

variable {callee : Node} {shape : CalleeShape}

theorem HasShape.plain (h : callee.HasShape shape) (hplain : callee.NamesPlain) :
    shape.Plain := by
  cases h with
  | bare hl => exact hplain callee (.inl rfl) _ hl
  | member _ hobject ho hproperty hp =>
    exact ⟨hplain _ (.inr (.inl hobject)) _ ho, hplain _ (.inr (.inr hproperty)) _ hp⟩

theorem qualifiedName?_eq_some_iff {name : String} :
    callee.qualifiedName? = some name ↔ ∃ shape, callee.HasShape shape ∧ shape.written = name := by
  constructor
  · intro h
    unfold qualifiedName? at h
    split at h
    · rename_i hl
      exact ⟨_, .bare hl, Option.some.inj h⟩
    · rename_i hl
      split at h
      · rename_i o p ho hp
        obtain ⟨object, hobject, ho⟩ := Option.bind_eq_some_iff.mp ho
        obtain ⟨property, hproperty, hp⟩ := Option.bind_eq_some_iff.mp hp
        exact ⟨_, .member hl hobject (identifier?_eq_some_iff.mp ho) hproperty
          (identifier?_eq_some_iff.mp hp), Option.some.inj h⟩
      · cases h
    · cases h
  · rintro ⟨shape, hshape, rfl⟩
    cases hshape with
    | bare hl => simp [qualifiedName?, hl, CalleeShape.written]
    | member hl hobject ho hproperty hp =>
      simp [qualifiedName?, hl, hobject, hproperty, identifier?, ho, hp, CalleeShape.written]

end Node

namespace Callee

/-! ### Splitting at the last dot -/

theorem forall_ne_dot {name : List Char} (h : '.' ∉ name) :
    ∀ c ∈ name.reverse, (c != '.') = true := by
  intro c hc
  simpa using fun he : c = '.' => h (he ▸ List.mem_reverse.mp hc)

theorem takeWhile_reverse {name : List Char} (h : '.' ∉ name) (before : List Char) :
    ((before ++ '.' :: name).reverse.takeWhile (· != '.')).reverse = name := by
  rw [List.reverse_append, List.reverse_cons, List.append_assoc,
    List.takeWhile_append_of_pos (forall_ne_dot h)]
  simp

theorem splitLast_append {name : List Char} (h : '.' ∉ name) (space : List Char) :
    splitLast (space ++ '.' :: name) = (space, name) := by
  have hlength : (space ++ '.' :: name).length - name.length = space.length + 1 := by
    simp only [List.length_append, List.length_cons]
    omega
  have htake : (space ++ '.' :: name).take (space.length + 1) = space ++ ['.'] := by
    rw [← List.singleton_append, ← List.append_assoc]
    exact List.take_left' (by simp)
  simp only [splitLast, takeWhile_reverse h, hlength, htake, List.dropLast_concat]

theorem splitLast_of_no_dot {name : List Char} (h : '.' ∉ name) : splitLast name = ([], name) := by
  have hall : name.reverse.takeWhile (· != '.') = name.reverse :=
    List.takeWhile_eq_self_iff.mpr (forall_ne_dot h)
  simp [splitLast, hall]

end Callee

namespace CalleeShape

open Callee

/-- The text before the last dot of a written callee, and the text behind it. -/
def parts : CalleeShape → List Char × List Char
  | .bare name => ([], name.toList)
  | .member object property => (object.toList, property.toList)

theorem splitLast_written {shape : CalleeShape} (h : shape.Plain) :
    splitLast shape.written.toList = shape.parts := by
  cases shape with
  | bare name => exact splitLast_of_no_dot h.2
  | member object property =>
    have hlist : (object ++ "." ++ property).toList =
        object.toList ++ '.' :: property.toList := by
      simp [String.toList_append]
    rw [written, hlist, splitLast_append h.2.2, parts]

/-- A callee is known by its parts, since an object is not empty. -/
theorem parts_inj {a b : CalleeShape} (ha : a.Plain) (hb : b.Plain) (h : a.parts = b.parts) :
    a = b := by
  cases a with
  | bare name =>
    cases b with
    | bare name' =>
      obtain rfl : name = name' := by simpa [parts, String.toList_inj] using h
      rfl
    | member object property =>
      obtain ⟨hempty, -⟩ : [] = object.toList ∧ _ := Prod.ext_iff.mp h
      exact absurd (by simpa using hempty.symm) hb.1.1
  | member object property =>
    cases b with
    | bare name' =>
      obtain ⟨hempty, -⟩ : object.toList = [] ∧ _ := Prod.ext_iff.mp h
      exact absurd (by simpa using hempty) ha.1.1
    | member object' property' =>
      obtain ⟨rfl, rfl⟩ : object = object' ∧ property = property' := by
        simpa [parts, String.toList_inj] using h
      rfl

theorem written_inj {a b : CalleeShape} (ha : a.Plain) (hb : b.Plain)
    (h : a.written = b.written) : a = b := by
  refine parts_inj ha hb ?_
  rw [← splitLast_written ha, h, splitLast_written hb]

/-! ### Mutating functions -/

def objectMutators : List String :=
  ["assign", "defineProperty", "defineProperties", "setPrototypeOf"]

/-- The callee is a mutating function: one of `Object`, one of lodash under its name `_`, or one of
lodash on its own where its functions are imported. -/
inductive Mutates (lodashImports : Bool) : CalleeShape → Prop
  | object {property : String} : property ∈ objectMutators →
      Mutates lodashImports (.member "Object" property)
  | lodash {property : String} : property ∈ lodashFunctions →
      Mutates lodashImports (.member "_" property)
  | imported {name : String} : lodashImports = true → name ∈ lodashFunctions →
      Mutates lodashImports (.bare name)

theorem objectFunctions_eq :
    objectFunctions = objectMutators.map fun property => (member "Object" property).written := by
  decide

theorem written_mem_objectFunctions {shape : CalleeShape} (h : shape.Plain) :
    shape.written ∈ objectFunctions ↔ ∃ property ∈ objectMutators,
      shape = .member "Object" property := by
  rw [objectFunctions_eq, List.mem_map]
  constructor
  · rintro ⟨property, hmem, heq⟩
    have hplain : ∀ property ∈ objectMutators, PlainName property := by decide
    have hmember : (member "Object" property).Plain := ⟨by decide, hplain property hmem⟩
    exact ⟨property, hmem, written_inj h hmember heq.symm⟩
  · rintro ⟨property, hmem, rfl⟩
    exact ⟨property, hmem, rfl⟩

theorem isMutating_written {shape : CalleeShape} (h : shape.Plain) (lodashImports : Bool) :
    isMutating lodashImports shape.written = true ↔ shape.Mutates lodashImports := by
  unfold isMutating
  rw [splitLast_written h, Bool.or_eq_true, List.contains_iff_mem, written_mem_objectFunctions h]
  cases shape with
  | bare name =>
    simp only [parts, List.isEmpty_nil, if_true, String.ofList_toList, Bool.and_eq_true,
      List.contains_iff_mem]
    constructor
    · rintro (⟨property, -, heq⟩ | ⟨himports, hmem⟩)
      · cases heq
      · exact .imported himports hmem
    · rintro ⟨⟩
      exact .inr ⟨‹_›, ‹_›⟩
  | member object property =>
    have hspace : object.toList.isEmpty = false := by
      simpa using h.1.1
    simp only [parts, hspace, String.ofList_toList, Bool.false_eq_true, if_false, Bool.and_eq_true,
      List.contains_iff_mem, beq_iff_eq]
    constructor
    · rintro (⟨property', hmem, heq⟩ | ⟨hspace, hmem⟩)
      · cases heq
        exact .object hmem
      · obtain rfl : object = "_" := String.toList_inj.mp hspace
        exact .lodash hmem
    · rintro ⟨⟩
      · exact .inl ⟨_, ‹_›, rfl⟩
      · exact .inr ⟨rfl, ‹_›⟩

end CalleeShape

/-! ### Ignored methods -/

/-- What else is ignored makes no difference to a call whose callee has another name. -/
theorem Rule.checkCall_ignoring {name : String} {other : Node}
    (hname : other.qualifiedName? ≠ some name) (o : Options) (c : FileContext) {s : Site}
    (hs : s.node.child? .callee = some other) :
    Rule.checkCall { o with ignoredMethods := Text.ofString name :: o.ignoredMethods } c s =
      Rule.checkCall o c s := by
  unfold checkCall
  rw [hs, Option.bind_some]
  cases hother : other.qualifiedName? with
  | none => rfl
  | some name' =>
    have hne : Text.ofString name' ≠ Text.ofString name := by
      intro h
      exact hname (hother.trans (congrArg some (Text.ofString_inj h)))
    simp [hne, Rule.freshFirst]

open CalleeShape

/-- Names of callees are unambiguous. A callee whose names are plain counts as a mutating function
exactly when it is a member of `Object` or `_`, or a bare name, that is one. Two callees with the
same name are put together alike, so that to ignore the one changes nothing about calls of any
other. -/
theorem qualified_names_unambiguous {callee : Node} (hplain : callee.NamesPlain)
    (lodashImports : Bool) :
    (callee.qualifiedName?.any (Callee.isMutating lodashImports) = true ↔
      ∃ shape, callee.HasShape shape ∧ shape.Mutates lodashImports) ∧
    ∀ (other : Node) (name : String), other.NamesPlain → callee.qualifiedName? = some name →
      (other.qualifiedName? = some name → ∃ shape, callee.HasShape shape ∧ other.HasShape shape) ∧
      ((¬ ∃ shape, callee.HasShape shape ∧ other.HasShape shape) →
        ∀ (o : Options) (c : FileContext) (s : Site), s.node.child? .callee = some other →
          Rule.checkCall { o with ignoredMethods := Text.ofString name :: o.ignoredMethods } c s =
            Rule.checkCall o c s) := by
  have hsame (other : Node) (name : String) (hother : other.NamesPlain)
      (hname : callee.qualifiedName? = some name) (hname' : other.qualifiedName? = some name) :
      ∃ shape, callee.HasShape shape ∧ other.HasShape shape := by
    obtain ⟨shape, hshape, hwritten⟩ := Node.qualifiedName?_eq_some_iff.mp hname
    obtain ⟨shape', hshape', hwritten'⟩ := Node.qualifiedName?_eq_some_iff.mp hname'
    obtain rfl := written_inj (hshape.plain hplain) (hshape'.plain hother)
      (hwritten.trans hwritten'.symm)
    exact ⟨shape, hshape, hshape'⟩
  refine ⟨?_, fun other name hother hname => ⟨hsame other name hother hname, ?_⟩⟩
  · rw [Option.any_eq_true]
    constructor
    · rintro ⟨name, hname, hmutating⟩
      obtain ⟨shape, hshape, rfl⟩ := Node.qualifiedName?_eq_some_iff.mp hname
      exact ⟨shape, hshape, (isMutating_written (hshape.plain hplain) _).mp hmutating⟩
    · rintro ⟨shape, hshape, hmutates⟩
      exact ⟨shape.written, Node.qualifiedName?_eq_some_iff.mpr ⟨shape, hshape, rfl⟩,
        (isMutating_written (hshape.plain hplain) _).mpr hmutates⟩
  · intro hdiffer o c s hs
    exact Rule.checkCall_ignoring
      (fun hname' => hdiffer (hsame other name hother hname hname')) o c hs

namespace NamedCallees

def memberOf (object property : String) : Node :=
  .mk (.member false false) .origin
    [(.object, .ofName object), (.property, .ofName property)]

/-- The call `_.assign(a)`. -/
def lodashCall : Node :=
  .mk (.call false) .origin [(.callee, memberOf "_" "assign"), (.arguments, .ofName "a")]

theorem namesPlain_memberOf {object property : String} (ho : PlainName object)
    (hp : PlainName property) : (memberOf object property).NamesPlain := by
  rintro n (rfl | hn | hn) name hl
  · cases hl
  · cases hn
    cases hl
    exact ho
  · cases hn
    cases hl
    exact hp

end NamedCallees

open NamedCallees in
/-- `Object.assign` and `_.assign` are both mutating functions, and to ignore the first leaves a
call of the second reported. -/
theorem assign_names_unambiguous :
    (memberOf "Object" "assign").NamesPlain ∧ (memberOf "_" "assign").NamesPlain ∧
    (memberOf "Object" "assign").qualifiedName? = some "Object.assign" ∧
    (memberOf "Object" "assign").qualifiedName?.any (Callee.isMutating false) = true ∧
    ((Rule.checkCall { ignoredMethods := ["Object.assign"] } ⟨.ofText "", none⟩
      (.root lodashCall)).finding?.map (·.message)) =
        some "Unallowed use of mutating function '_.assign'" := by
  have hobject : (memberOf "Object" "assign").NamesPlain :=
    namesPlain_memberOf (by decide) (by decide)
  have hlodash : (memberOf "_" "assign").NamesPlain := namesPlain_memberOf (by decide) (by decide)
  obtain ⟨hiff, hother⟩ := qualified_names_unambiguous hobject false
  have hshape : (memberOf "Object" "assign").HasShape (.member "Object" "assign") :=
    .member rfl rfl rfl rfl rfl
  have hdiffer : ¬ ∃ shape, (memberOf "Object" "assign").HasShape shape ∧
      (memberOf "_" "assign").HasShape shape := by
    rintro ⟨shape, ⟨hl⟩ | ⟨-, ho, hn, -, -⟩, ⟨hl'⟩ | ⟨-, ho', hn', -, -⟩⟩
    · cases hl
    · cases ho
      cases ho'
      cases hn
      exact absurd hn' (by decide)
  refine ⟨hobject, hlodash, rfl, hiff.mpr ⟨_, hshape, .object (by decide)⟩, ?_⟩
  have hverdict := (hother _ "Object.assign" hlodash rfl).2 hdiffer {} ⟨.ofText "", none⟩
    (.root lodashCall) rfl
  rw [hverdict]
  decide +kernel

end MutationLint
