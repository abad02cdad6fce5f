import Mathlib.Data.List.Forall2
import MutationLint.Proofs.Config.Options

/-! Which objects give options, and which options they give. A flag must be a boolean, a list of
names a list of strings, and the exceptions a list of objects with strings; a list that is absent or
null is the standard one. Objects of that kind are accepted, and one kind more: exceptions that are
bare, such as `false`, `0`, an empty text or an empty object, count as absent. All others are
refused. -/

namespace MutationLint

section
variable {α β : Type}

theorem mapM_eq_ok_iff {ε : Type} {f : α → Except ε β} {as : List α} {bs : List β} :
    as.mapM f = .ok bs ↔ List.Forall₂ (fun a b => f a = .ok b) as bs := by
  induction as generalizing bs with
  | nil =>
    rw [List.mapM_nil, List.forall₂_nil_left_iff]
    exact ⟨fun h => (Except.ok.inj h).symm, fun h => congrArg Except.ok h.symm⟩
  | cons a rest ih =>
    rw [List.mapM_cons]
    constructor
    · intro h
      obtain ⟨b, hb, h⟩ := exists_of_bind_eq_ok h
      obtain ⟨others, hothers, h⟩ := exists_of_bind_eq_ok h
      cases h
      exact .cons hb (ih.mp hothers)
    · rintro (_ | ⟨hb, hothers⟩)
      rw [hb, ih.mpr hothers]
      rfl

theorem exists_forall₂_iff {R : α → β → Prop} {as : List α} :
    (∃ bs, List.Forall₂ R as bs) ↔ ∀ a ∈ as, ∃ b, R a b := by
  induction as with
  | nil => simp
  | cons a rest ih =>
    rw [List.forall_mem_cons, ← ih]
    constructor
    · rintro ⟨_, _ | ⟨hb, hbs⟩⟩
      exact ⟨⟨_, hb⟩, _, hbs⟩
    · rintro ⟨⟨b, hb⟩, bs, hbs⟩
      exact ⟨b :: bs, .cons hb hbs⟩

end

namespace Options

/-! ### What a value gives -/

inductive FlagGives : Option Value → Bool → Prop
  | absent : FlagGives none false
  | present (b : Bool) : FlagGives (some (.bool b)) b

/-- What a value gives that may be absent or null, and is something standard then. -/
inductive NullableGives {α : Type} (standard : α) (reads : Value → α → Prop) :
    Option Value → α → Prop
  | absent : NullableGives standard reads none standard
  | null : NullableGives standard reads (some .null) standard
  | present {v : Value} {a : α} : reads v a → NullableGives standard reads (some v) a

def ListsTexts (v : Value) (texts : List Text) : Prop := v = .list (texts.map .string)

def IsText (v : Value) (side : Option Text) : Prop := ∃ text, v = .string text ∧ side = some text

inductive EntryGives : Value → Pattern → Prop
  | object {v : Value} {entry : Fields} {object property : Option Text} :
      v.object? = some entry → NullableGives none IsText (entry.get? "object") object →
      NullableGives none IsText (entry.get? "property") property →
      EntryGives v ⟨object, property, false⟩

def ListsPatterns (v : Value) (patterns : List Pattern) : Prop :=
  ∃ entries, v = .list entries ∧ List.Forall₂ EntryGives entries patterns

structure GivesOthers (raw : Fields) (o : Options) : Prop where
  commonjs : FlagGives (raw.get? "commonjs") o.commonjs
  prototypes : FlagGives (raw.get? "prototypes") o.prototypes
  allowThis : FlagGives (raw.get? "allowThis") o.allowThis
  functionProps : FlagGives (raw.get? "functionProps") o.functionProps
  reducers : NullableGives [Text.ofString "reduce"] ListsTexts (raw.get? "reducers") o.reducers
  lodashImports : FlagGives (raw.get? "useLodashFunctionImports") o.lodashImports
  ignoredMethods : NullableGives [] ListsTexts (raw.get? "ignoredMethods") o.ignoredMethods

/-- Each option is what the value under its key gives. -/
structure Gives (raw : Fields) (o : Options) : Prop extends GivesOthers raw o where
  exceptions : NullableGives [] ListsPatterns (raw.get? "exceptions") o.exceptions

/-! ### Well-typed objects -/

def flagKeys : List String :=
  ["commonjs", "prototypes", "allowThis", "functionProps", "useLodashFunctionImports"]

def nameKeys : List String := ["reducers", "ignoredMethods"]

/-- The value is an object whose object and property are each absent, null or a string. -/
def IsEntry (v : Value) : Prop :=
  ∃ entry : Fields, v.object? = some entry ∧ ∀ key ∈ ["object", "property"], ∀ side,
    entry.get? (Text.ofString key) = some side → side = .null ∨ ∃ text, side = .string text

/-- Whatever is there is of the type that its key asks for. -/
structure WellTyped (raw : Fields) : Prop where
  flags : ∀ key ∈ flagKeys, ∀ value, raw.get? (Text.ofString key) = some value →
    ∃ b, value = .bool b
  names : ∀ key ∈ nameKeys, ∀ value, raw.get? (Text.ofString key) = some value →
    value = .null ∨ ∃ texts : List Text, value = .list (texts.map .string)
  exceptions : ∀ value, raw.get? "exceptions" = some value →
    value = .null ∨ ∃ entries, value = .list entries ∧ ∀ v ∈ entries, IsEntry v

theorem exists_flagGives_iff {v? : Option Value} :
    (∃ b, FlagGives v? b) ↔ ∀ value, v? = some value → ∃ b, value = .bool b := by
  constructor
  · rintro ⟨b, hb⟩ value rfl
    cases hb
    exact ⟨b, rfl⟩
  · intro h
    cases v? with
    | none => exact ⟨false, .absent⟩
    | some value =>
      obtain ⟨b, rfl⟩ := h value rfl
      exact ⟨b, .present b⟩

theorem exists_nullableGives_iff {α : Type} {standard : α} {reads : Value → α → Prop}
    {v? : Option Value} : (∃ a, NullableGives standard reads v? a) ↔
      ∀ value, v? = some value → value = .null ∨ ∃ a, reads value a := by
  constructor
  · rintro ⟨a, ha⟩ value rfl
    cases ha with
    | null => exact .inl rfl
    | present h => exact .inr ⟨a, h⟩
  · intro h
    cases v? with
    | none => exact ⟨standard, .absent⟩
    | some value =>
      obtain rfl | ⟨a, ha⟩ := h value rfl
      · exact ⟨standard, .null⟩
      · exact ⟨a, .present ha⟩

theorem exists_isText_iff {v : Value} : (∃ side, IsText v side) ↔ ∃ text, v = .string text :=
  ⟨fun ⟨_, text, hv, _⟩ => ⟨text, hv⟩, fun ⟨text, hv⟩ => ⟨some text, text, hv, rfl⟩⟩

theorem exists_entryGives_iff {v : Value} : (∃ p, EntryGives v p) ↔ IsEntry v := by
  unfold IsEntry
  have hside {v? : Option Value} : (∃ side, NullableGives none IsText v? side) ↔
      ∀ value, v? = some value → value = .null ∨ ∃ text, value = .string text := by
    simp only [exists_nullableGives_iff, exists_isText_iff]
  simp only [← hside]
  constructor
  · rintro ⟨_, ⟨hv, hobject, hproperty⟩⟩
    refine ⟨_, hv, List.forall_mem_cons.mpr ⟨⟨_, hobject⟩, List.forall_mem_singleton.mpr ?_⟩⟩
    exact ⟨_, hproperty⟩
  · rintro ⟨entry, hv, h⟩
    obtain ⟨⟨object, hobject⟩, h⟩ := List.forall_mem_cons.mp h
    obtain ⟨property, hproperty⟩ := List.forall_mem_singleton.mp h
    exact ⟨_, .object hv hobject hproperty⟩

theorem exists_listsPatterns_iff {v : Value} : (∃ patterns, ListsPatterns v patterns) ↔
    ∃ entries, v = .list entries ∧ ∀ e ∈ entries, IsEntry e := by
  simp only [ListsPatterns, ← exists_entryGives_iff, ← exists_forall₂_iff]
  constructor
  · rintro ⟨patterns, entries, hv, h⟩
    exact ⟨entries, hv, patterns, h⟩
  · rintro ⟨entries, hv, patterns, h⟩
    exact ⟨patterns, entries, hv, h⟩

variable {raw : Fields} {key : String} {o : Options}

/-- The well-typed objects are those that give options. -/
theorem wellTyped_iff_exists_gives : WellTyped raw ↔ ∃ o, Gives raw o := by
  constructor
  · intro h
    have hflag (key : String) (hkey : key ∈ flagKeys) : ∃ b, FlagGives (raw.get? key) b :=
      exists_flagGives_iff.mpr (h.flags key hkey)
    have hnames (key : String) (hkey : key ∈ nameKeys) (standard : List Text) :
        ∃ texts, NullableGives standard ListsTexts (raw.get? key) texts :=
      exists_nullableGives_iff.mpr (h.names key hkey)
    obtain ⟨commonjs, h₁⟩ := hflag "commonjs" (by decide)
    obtain ⟨prototypes, h₂⟩ := hflag "prototypes" (by decide)
    obtain ⟨allowThis, h₃⟩ := hflag "allowThis" (by decide)
    obtain ⟨functionProps, h₄⟩ := hflag "functionProps" (by decide)
    obtain ⟨exceptions, h₅⟩ : ∃ patterns,
        NullableGives [] ListsPatterns (raw.get? "exceptions") patterns := by
      rw [exists_nullableGives_iff]
      simp only [exists_listsPatterns_iff]
      exact h.exceptions
    obtain ⟨reducers, h₆⟩ := hnames "reducers" (by decide) [Text.ofString "reduce"]
    obtain ⟨lodashImports, h₇⟩ := hflag "useLodashFunctionImports" (by decide)
    obtain ⟨ignoredMethods, h₈⟩ := hnames "ignoredMethods" (by decide) []
    exact ⟨⟨commonjs, prototypes, allowThis, functionProps, exceptions, reducers, lodashImports,
      ignoredMethods⟩, ⟨h₁, h₂, h₃, h₄, h₆, h₇, h₈⟩, h₅⟩
  · rintro ⟨o, h⟩
    refine ⟨?_, ?_, ?_⟩
    · simp only [flagKeys, List.forall_mem_cons, ← exists_flagGives_iff]
      exact ⟨⟨_, h.commonjs⟩, ⟨_, h.prototypes⟩, ⟨_, h.allowThis⟩, ⟨_, h.functionProps⟩,
        ⟨_, h.lodashImports⟩, List.forall_mem_nil _⟩
    · simp only [nameKeys, List.forall_mem_cons]
      exact ⟨exists_nullableGives_iff.mp ⟨_, h.reducers⟩,
        exists_nullableGives_iff.mp ⟨_, h.ignoredMethods⟩, List.forall_mem_nil _⟩
    · simp only [← exists_listsPatterns_iff]
      exact exists_nullableGives_iff.mp ⟨_, h.exceptions⟩

/-! ### What is read -/

theorem flag_eq_ok_iff {b : Bool} : flag raw key = .ok b ↔ FlagGives (raw.get? key) b := by
  unfold flag
  constructor
  · intro h
    split at h <;> rename_i hv
    · cases h
      exact hv ▸ .absent
    · cases h
      exact hv ▸ .present _
    · cases h
  · intro h
    generalize raw.get? key = v? at h
    cases h <;> rfl

theorem strings?_eq_some_iff {vs : List Value} {texts : List Text} :
    strings? vs = some texts ↔ vs = texts.map .string := by
  constructor
  · intro h
    fun_induction strings? vs generalizing texts with
    | case1 =>
      cases h
      rfl
    | case2 s rest ih =>
      obtain ⟨others, hothers, rfl⟩ := Option.map_eq_some_iff.mp h
      rw [ih hothers, List.map_cons]
    | case3 => cases h
  · rintro rfl
    induction texts with
    | nil => rfl
    | cons s rest ih => rw [List.map_cons, strings?, ih, Option.map_some]

theorem names_eq_ok_iff {standard texts : List Text} : names raw key standard = .ok texts ↔
    NullableGives standard ListsTexts (raw.get? key) texts := by
  unfold names
  constructor
  · intro h
    split at h <;> rename_i hv
    · cases h
      exact hv ▸ .absent
    · cases h
      exact hv ▸ .null
    · split at h
      · rename_i hstrings
        cases h
        exact hv ▸ .present (congrArg Value.list (strings?_eq_some_iff.mp hstrings))
      · cases h
    · cases h
  · intro h
    generalize raw.get? key = v? at h
    cases h with
    | absent => rfl
    | null => rfl
    | present hlist =>
      obtain rfl := hlist
      simp only [strings?_eq_some_iff.mpr rfl]

theorem side_eq_ok_iff {entry : Fields} {side? : Option Text} :
    side entry key = .ok side? ↔ NullableGives none IsText (entry.get? key) side? := by
  unfold side
  constructor
  · intro h
    split at h <;> rename_i hv
    · cases h
      exact hv ▸ .absent
    · cases h
      exact hv ▸ .null
    · cases h
      exact hv ▸ .present ⟨_, rfl, rfl⟩
    · cases h
  · intro h
    generalize entry.get? key = v? at h
    cases h with
    | absent => rfl
    | null => rfl
    | present htext =>
      obtain ⟨text, rfl, rfl⟩ := htext
      rfl

theorem exception_eq_ok_iff {v : Value} {p : Pattern} :
    exception v = .ok p ↔ EntryGives v p := by
  constructor
  · intro h
    unfold exception at h
    split at h
    · rename_i entry hv
      obtain ⟨object, hobject, h⟩ := exists_of_bind_eq_ok h
      obtain ⟨property, hproperty, h⟩ := exists_of_bind_eq_ok h
      cases h
      exact .object hv (side_eq_ok_iff.mp hobject) (side_eq_ok_iff.mp hproperty)
    · cases h
  · rintro ⟨hv, hobject, hproperty⟩
    simp only [exception, hv, side_eq_ok_iff.mpr hobject, side_eq_ok_iff.mpr hproperty]
    rfl

def HasBareExceptions (raw : Fields) : Prop :=
  ∃ v, raw.get? "exceptions" = some v ∧ v.isBare = true

/-- Exceptions are read as they should be, and those that are bare as none. -/
theorem exceptionList_eq_ok_iff {patterns : List Pattern} : exceptionList raw = .ok patterns ↔
    NullableGives [] ListsPatterns (raw.get? "exceptions") patterns ∨
      HasBareExceptions raw ∧ patterns = [] := by
  unfold exceptionList HasBareExceptions
  cases hv : raw.get? "exceptions" with
  | none =>
    simp only [Except.ok.injEq, reduceCtorEq, false_and, exists_false, or_false]
    constructor
    · rintro rfl
      exact .absent
    · rintro ⟨⟩
      rfl
  | some v =>
    simp only [Option.some.injEq, exists_eq_left']
    by_cases hbare : v.isBare = true
    · rw [if_pos hbare]
      constructor
      · intro h
        exact .inr ⟨hbare, (Except.ok.inj h).symm⟩
      · rintro (h | ⟨-, rfl⟩)
        · -- a list that is bare has no members, and so gives nothing
          cases h with
          | null => rfl
          | present hlists =>
            obtain ⟨entries, rfl, hentries⟩ := hlists
            cases hentries with
            | nil => rfl
            | cons _ _ => cases hbare
        · rfl
    · rw [if_neg hbare, or_iff_left fun h => hbare h.1]
      constructor
      · intro h
        split at h
        · refine .present ⟨_, rfl, ?_⟩
          simpa only [exception_eq_ok_iff] using mapM_eq_ok_iff.mp h
        · cases h
      · intro h
        cases h with
        | null => exact absurd rfl hbare
        | present hlists =>
          obtain ⟨entries, rfl, hentries⟩ := hlists
          simpa only [mapM_eq_ok_iff, exception_eq_ok_iff] using hentries

/-! ### All of it -/

theorem ofValue_object (raw : Fields) : ofValue (.object raw.entries) = ofFields raw := by
  rw [ofValue, Value.object?, Fields.ofList_entries]
  obtain ⟨entries, hdistinct⟩ := raw
  cases entries <;> rfl

theorem ofFields_eq_ok_iff_gives : ofFields raw = .ok o ↔
    GivesOthers raw o ∧ exceptionList raw = .ok o.exceptions := by
  rw [ofFields_eq_ok_iff]
  simp only [flag_eq_ok_iff, names_eq_ok_iff]
  constructor
  · rintro ⟨h₁, h₂, h₃, h₄, h₅, h₆, h₇, h₈⟩
    exact ⟨⟨h₁, h₂, h₃, h₄, h₆, h₇, h₈⟩, h₅⟩
  · rintro ⟨⟨h₁, h₂, h₃, h₄, h₆, h₇, h₈⟩, h₅⟩
    exact ⟨h₁, h₂, h₃, h₄, h₅, h₆, h₇, h₈⟩

theorem givesOthers_erase : GivesOthers (raw.erase "exceptions") o ↔ GivesOthers raw o := by
  have hkeep (key : String) (hne : key ≠ "exceptions") :
      (raw.erase "exceptions").get? key = raw.get? (Text.ofString key) := by
    rw [Fields.get?_erase, if_neg (mt Text.ofString_inj hne)]
  constructor
  · rintro ⟨h₁, h₂, h₃, h₄, h₅, h₆, h₇⟩
    rw [hkeep _ (by decide)] at h₁ h₂ h₃ h₄ h₅ h₆ h₇
    exact ⟨h₁, h₂, h₃, h₄, h₅, h₆, h₇⟩
  · rintro ⟨h₁, h₂, h₃, h₄, h₅, h₆, h₇⟩
    rw [← hkeep _ (by decide)] at h₁ h₂ h₃ h₄ h₅ h₆ h₇
    exact ⟨h₁, h₂, h₃, h₄, h₅, h₆, h₇⟩

/-- Without exceptions an object gives none, and the other options as with them. -/
theorem gives_erase_iff :
    Gives (raw.erase "exceptions") o ↔ GivesOthers raw o ∧ o.exceptions = [] := by
  have hnone : (raw.erase "exceptions").get? "exceptions" = none := by
    rw [Fields.get?_erase, if_pos rfl]
  constructor
  · rintro ⟨hothers, hexceptions⟩
    rw [hnone] at hexceptions
    refine ⟨givesOthers_erase.mp hothers, ?_⟩
    generalize o.exceptions = patterns at hexceptions
    cases hexceptions
    rfl
  · rintro ⟨hothers, hexceptions⟩
    refine ⟨givesOthers_erase.mpr hothers, ?_⟩
    rw [hnone, hexceptions]
    exact .absent

theorem ofFields_eq_ok_iff_or : ofFields raw = .ok o ↔
    Gives raw o ∨ HasBareExceptions raw ∧ Gives (raw.erase "exceptions") o := by
  rw [ofFields_eq_ok_iff_gives, exceptionList_eq_ok_iff, gives_erase_iff]
  constructor
  · rintro ⟨hothers, hexceptions | ⟨hbare, hnone⟩⟩
    · exact .inl ⟨hothers, hexceptions⟩
    · exact .inr ⟨hbare, hothers, hnone⟩
  · rintro (⟨hothers, hexceptions⟩ | ⟨hbare, hothers, hnone⟩)
    · exact ⟨hothers, .inl hexceptions⟩
    · exact ⟨hothers, .inr ⟨hbare, hnone⟩⟩

/-- Which objects are accepted as options. They are the well-typed ones, and those that are so but
for exceptions that are bare; each option is then what the value under its key gives, where bare
exceptions count as absent. Every other object is refused for one of its values. -/
theorem accepted_iff_wellTyped_or_bare (raw : Fields) :
    (∀ o, ofValue (.object raw.entries) = .ok o ↔
      Gives raw o ∨ HasBareExceptions raw ∧ Gives (raw.erase "exceptions") o) ∧
    ((∃ o, ofValue (.object raw.entries) = .ok o) ↔
      WellTyped raw ∨ HasBareExceptions raw ∧ WellTyped (raw.erase "exceptions")) ∧
    ((∃ fault, ofValue (.object raw.entries) = .error fault ∧ fault ≠ .notObject) ↔
      ¬ (WellTyped raw ∨ HasBareExceptions raw ∧ WellTyped (raw.erase "exceptions"))) := by
  have hiff : (∃ o, ofFields raw = .ok o) ↔
      WellTyped raw ∨ HasBareExceptions raw ∧ WellTyped (raw.erase "exceptions") := by
    simp only [ofFields_eq_ok_iff_or, exists_or, exists_and_left, wellTyped_iff_exists_gives]
  simp only [ofValue_object]
  refine ⟨fun o => ofFields_eq_ok_iff_or, hiff, ?_⟩
  rw [← hiff]
  constructor
  · rintro ⟨fault, hfault, -⟩ ⟨o, ho⟩
    cases hfault.symm.trans ho
  · intro hnot
    cases h : ofFields raw with
    | ok o => exact absurd ⟨o, h⟩ hnot
    | error fault => exact ⟨fault, rfl, ofFields_fault h⟩

/-- It is not so that only well-typed objects are accepted: exceptions that are `false` are no list,
and are taken for none. -/
theorem not_forall_accepted_wellTyped :
    ¬ ∀ raw : Fields, (∃ o, ofValue (.object raw.entries) = .ok o) ↔ WellTyped raw := by
  intro hall
  have haccepted : ofFields (Fields.empty.set "exceptions" (.bool false)) = .ok {} := rfl
  have htyped := (hall _).mp ⟨_, (ofValue_object _).trans haccepted⟩
  rcases htyped.exceptions (.bool false) rfl with h | ⟨entries, h, -⟩ <;> cases h

end Options
end MutationLint
