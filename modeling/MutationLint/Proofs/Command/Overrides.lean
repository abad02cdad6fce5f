import Mathlib.Data.List.TakeWhile
import MutationLint.Command.Overrides
import MutationLint.Config.Project
import MutationLint.Proofs.Config.Options

/-! Flags of the command line over the options of a project. Options that are in order stay so under
any flags, and each of them is what its flag sets, or what it was where the flag sets nothing. -/

namespace MutationLint

namespace Text

theorem ne_of_containsChar {a : Text} {c : Char} (h : a.containsChar c = false) :
    ∀ m ∈ a.marks, (m != .char c) = true := by
  intro m hm
  rw [bne_iff_ne]
  rintro rfl
  rw [containsChar, List.contains_iff_mem.mpr hm] at h
  cases h

theorem cut_append {a : Text} {c : Char} (h : a.containsChar c = false) (b : Text) :
    (a ++ ofChars [c] ++ b).cut c = (a, some b) := by
  have hmarks : (a ++ ofChars [c] ++ b).marks = a.marks ++ .char c :: b.marks := by simp
  have hhead : (a.marks ++ .char c :: b.marks).takeWhile (· != .char c) = a.marks := by
    rw [List.takeWhile_append_of_pos (ne_of_containsChar h)]
    simp
  simp [cut, hmarks, hhead]

theorem cut_of_containsChar {a : Text} {c : Char} (h : a.containsChar c = false) :
    a.cut c = (a, none) := by
  have hhead : a.marks.takeWhile (· != .char c) = a.marks :=
    List.takeWhile_eq_self_iff.mpr (ne_of_containsChar h)
  simp [cut, hhead]

end Text

namespace Command

/-! ### Exceptions -/

def exceptionPattern (text : Text) : Pattern :=
  let side (t : Text) : Option Text := if t.isEmpty then none else some t
  match text.cut '.' with
  | (object, none) => ⟨some object, none, false⟩
  | (object, some property) => ⟨side object, side property, false⟩

theorem exceptionPattern_of_plain {a : Text} (h : a.containsChar '.' = false) :
    exceptionPattern a = ⟨some a, none, false⟩ := by
  rw [exceptionPattern, Text.cut_of_containsChar h]

theorem exceptionPattern_of_dotted {a : Text} (h : a.containsChar '.' = false) (b : Text) :
    exceptionPattern (a ++ "." ++ b) =
      ⟨if a.isEmpty then none else some a, if b.isEmpty then none else some b, false⟩ := by
  rw [exceptionPattern, show Text.ofString "." = Text.ofChars ['.'] from rfl, Text.cut_append h]

theorem exception_parseException (text : Text) :
    Options.exception (.object (parseException text)) = .ok (exceptionPattern text) := by
  rw [parseException, exceptionPattern]
  obtain ⟨object, property⟩ := text.cut '.'
  cases property with
  | none => rfl
  | some property =>
    cases ho : object.isEmpty <;> cases hp : property.isEmpty <;>
      simp [setIf, ho, hp, Options.exception, Options.side, Value.object?, Fields.ofList,
        Fields.get?_set, Text.ofString_eq_iff, bind, Except.bind, pure, Except.pure]

theorem mapM_exception (texts : List Text) :
    (texts.map fun e => Value.object (parseException e)).mapM Options.exception =
      .ok (texts.map exceptionPattern) := by
  induction texts with
  | nil => rfl
  | cons e rest ih =>
    rw [List.map_cons, List.mapM_cons, exception_parseException, ih]
    rfl

theorem strings?_map (texts : List Text) : Options.strings? (texts.map .string) = some texts := by
  induction texts with
  | nil => rfl
  | cons t rest ih => simp [Options.strings?, ih]

/-! ### One option -/

section
variable {raw raw' : Fields} {key : String}

theorem get?_setAll_setIf (base : Fields) (given : Bool) (key : Text) (value : Value)
    (other : Text) : (base.setAll (setIf given key value)).get? other =
      if given = true ∧ other = key then some value else base.get? other := by
  cases given <;> simp [setIf, Fields.get?_set]

theorem flag_override {on b : Bool}
    (h : raw'.get? key = if on then some (.bool true) else raw.get? key)
    (hb : Options.flag raw key = .ok b) : Options.flag raw' key = .ok (on || b) := by
  cases on with
  | true => simp [Options.flag, h]
  | false => rw [Options.flag_congr h, hb, Bool.false_or]

theorem names_override {given : Bool} {texts ns standard : List Text}
    (h : raw'.get? key = if given then some (Overrides.strings texts) else raw.get? key)
    (hns : Options.names raw key standard = .ok ns) :
    Options.names raw' key standard = .ok (if given then texts else ns) := by
  cases given with
  | true => simp [Options.names, h, Overrides.strings, strings?_map]
  | false => rw [Options.names_congr h, hns, if_neg Bool.false_ne_true]

theorem exceptionList_override {texts : List Text} {patterns : List Pattern}
    (h : raw'.get? "exceptions" = if !texts.isEmpty then
      some (.list (texts.map fun e => .object (parseException e))) else raw.get? "exceptions")
    (hp : Options.exceptionList raw = .ok patterns) : Options.exceptionList raw' =
      .ok (if !texts.isEmpty then texts.map exceptionPattern else patterns) := by
  cases texts with
  | nil => rw [Options.exceptionList_congr h, hp, if_neg (by simp)]
  | cons e rest =>
    rw [List.isEmpty_cons, Bool.not_false, if_pos rfl] at h ⊢
    rw [Options.exceptionList, h, ← mapM_exception]
    -- a list with a member is not bare
    rfl

end

/-! ### All options -/

def Overrides.over (given : Overrides) (o : Options) : Options where
  commonjs := given.commonjs || o.commonjs
  prototypes := given.prototypes || o.prototypes
  allowThis := given.allowThis || o.allowThis
  functionProps := given.functionProps || o.functionProps
  exceptions :=
    if !given.exceptions.isEmpty then given.exceptions.map exceptionPattern else o.exceptions
  reducers := given.reducers.getD o.reducers
  lodashImports := given.lodashImports || o.lodashImports
  ignoredMethods :=
    if !given.ignoredMethods.isEmpty then given.ignoredMethods else o.ignoredMethods

theorem get?_merge_fields (base : Fields) (given : Overrides) (other : Text) :
    (base.merge given.fields).get? other =
      if (!given.ignoredMethods.isEmpty) = true ∧ other = "ignoredMethods" then
        some (Overrides.strings given.ignoredMethods)
      else if given.reducers.isSome = true ∧ other = "reducers" then
        some (Overrides.strings (given.reducers.getD []))
      else if (!given.exceptions.isEmpty) = true ∧ other = "exceptions" then
        some (.list (given.exceptions.map fun e => .object (parseException e)))
      else if given.lodashImports = true ∧ other = "useLodashFunctionImports" then some (.bool true)
      else if given.functionProps = true ∧ other = "functionProps" then some (.bool true)
      else if given.allowThis = true ∧ other = "allowThis" then some (.bool true)
      else if given.prototypes = true ∧ other = "prototypes" then some (.bool true)
      else if given.commonjs = true ∧ other = "commonjs" then some (.bool true)
      else base.get? other := by
  simp only [Overrides.fields, Overrides.flag, Fields.get?_merge_ofList, Fields.setAll_append,
    get?_setAll_setIf]

/-- A configuration that gives a rule options gives it options under any flags too: those that the
flags set, and its own where they set nothing. An exception is cut at its first dot; a side that is
empty is open, and without a dot the whole is the object. -/
theorem optionsFor_overridden (p : Project) (rule : Text) (given : Overrides) {o : Options}
    (returned : p.optionsFor rule .empty = .ok o) :
    p.optionsFor rule given.fields = .ok (given.over o) ∧
      ∀ a : Text, a.containsChar '.' = false →
        exceptionPattern a = ⟨some a, none, false⟩ ∧
        ∀ b : Text, exceptionPattern (a ++ "." ++ b) =
          ⟨if a.isEmpty then none else some a, if b.isEmpty then none else some b, false⟩ := by
  refine ⟨?_, fun a ha => ⟨exceptionPattern_of_plain ha, exceptionPattern_of_dotted ha⟩⟩
  have hmerged : p.merged rule given.fields = (p.merged rule .empty).merge given.fields := rfl
  obtain ⟨h₁, h₂, h₃, h₄, h₅, h₆, h₇, h₈⟩ := Options.ofFields_eq_ok_iff.mp returned
  have hreducers : (given.over o).reducers =
      if given.reducers.isSome then given.reducers.getD [] else o.reducers := by
    rw [Overrides.over]
    cases given.reducers <;> rfl
  refine Options.ofFields_eq_ok_iff.mpr ⟨flag_override ?_ h₁, flag_override ?_ h₂,
    flag_override ?_ h₃, flag_override ?_ h₄, exceptionList_override ?_ h₅,
    hreducers ▸ names_override ?_ h₆, flag_override ?_ h₇, names_override ?_ h₈⟩
  -- under each key the flags set the one value that belongs there
  all_goals
    rw [hmerged, get?_merge_fields]
    simp [Text.ofString_eq_iff]

def sampleProject : Project :=
  ⟨.ofList [("commonjs", .bool true), ("reducers", .list [.string "fold"])],
    .ofList [("no-mutation", .object [("functionProps", .bool true)])], none⟩

/-- Flags that name exceptions and do away with reducers. -/
def sampleOverrides : Overrides :=
  { allowThis := true, exceptions := ["foo.", ".bar.baz", "qux"], reducers := some [] }

theorem sampleProject_overridden :
    ∃ o, sampleProject.optionsFor "no-mutation" .empty = .ok o ∧
      o = { commonjs := true, functionProps := true, reducers := ["fold"] } ∧
      sampleProject.optionsFor "no-mutation" sampleOverrides.fields = .ok (sampleOverrides.over o) ∧
      sampleOverrides.over o =
        { commonjs := true, allowThis := true, functionProps := true, reducers := []
          exceptions := [⟨some "foo", none, false⟩, ⟨none, some "bar.baz", false⟩,
            ⟨some "qux", none, false⟩] } ∧
      (Text.ofString "foo").containsChar '.' = false ∧
      exceptionPattern (Text.ofString "foo" ++ "." ++ "") = ⟨some "foo", none, false⟩ := by
  have hreturned : sampleProject.optionsFor "no-mutation" .empty =
      .ok { commonjs := true, functionProps := true, reducers := ["fold"] } := by rfl
  obtain ⟨hover, hexception⟩ :=
    optionsFor_overridden sampleProject "no-mutation" sampleOverrides hreturned
  have hfoo : (Text.ofString "foo").containsChar '.' = false := by decide
  exact ⟨_, hreturned, rfl, hover, by decide, hfoo, (hexception "foo" hfoo).2 ""⟩

end Command
end MutationLint
