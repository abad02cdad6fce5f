import Mathlib.Data.List.Basic
import MutationLint.Options
import MutationLint.Proofs.Node.Assembly

/-! Options, key by key. Each option is read from its own key and from nothing else; an object is
refused for the first of its values, in the order of the keys, that would be refused alone. -/

namespace MutationLint

/-! ### Faults of computations -/

def failure? {ε α : Type} : Except ε α → Option ε
  | .ok _ => none
  | .error e => some e

section
variable {ε α β : Type}

theorem failure?_eq_some_iff {x : Except ε α} {e : ε} : failure? x = some e ↔ x = .error e := by
  cases x <;> simp [failure?]

theorem bind_eq_error_iff {x : Except ε α} {next : α → Except ε β} {e : ε} :
    x >>= next = .error e ↔ x = .error e ∨ ∃ a, x = .ok a ∧ next a = .error e := by
  cases x with
  | error e' => simp [bind, Except.bind]
  | ok a => simp [bind, Except.bind]

theorem exists_of_mapM_eq_error {f : α → Except ε β} {l : List α} {e : ε}
    (h : l.mapM f = .error e) : ∃ a ∈ l, f a = .error e := by
  induction l with
  | nil => cases h
  | cons a rest ih =>
    rw [List.mapM_cons] at h
    rcases bind_eq_error_iff.mp h with h | ⟨b, -, h⟩
    · exact ⟨a, List.mem_cons_self, h⟩
    · rcases bind_eq_error_iff.mp h with h | ⟨bs, -, h⟩
      · obtain ⟨c, hc, he⟩ := ih h
        exact ⟨c, List.mem_cons_of_mem _ hc, he⟩
      · cases h

/-- Where what follows fails in one way whatever came before, the first fault counts. -/
theorem failure?_bind {x : Except ε α} {next : α → Except ε β} {after : Option ε}
    (h : ∀ a, failure? (next a) = after) : failure? (x >>= next) = (failure? x).or after := by
  cases x with
  | error e => rfl
  | ok a => exact h a

theorem findSome?_cons_eq_or (f : α → Option β) (a : α) (l : List α) :
    (a :: l).findSome? f = (f a).or (l.findSome? f) := by
  rw [List.findSome?_cons]
  cases f a <;> rfl

theorem findSome?_eq_of_others {f : α → Option β} {a : α} {l : List α} (ha : a ∈ l)
    (h : ∀ b ∈ l, b ≠ a → f b = none) : l.findSome? f = f a := by
  cases hf : f a with
  | none =>
    rw [List.findSome?_eq_none_iff]
    intro b hb
    by_cases he : b = a
    · rw [he, hf]
    · exact h b hb he
  | some v =>
    induction l with
    | nil => cases ha
    | cons b rest ih =>
      rw [findSome?_cons_eq_or]
      by_cases he : b = a
      · rw [he, hf, Option.some_or]
      · rw [h b List.mem_cons_self he, Option.none_or]
        exact ih ((List.mem_cons.mp ha).resolve_left (Ne.symm he))
          fun c hc => h c (List.mem_cons_of_mem _ hc)

end

namespace Options

variable {raw raw' : Fields} {key : String}

/-- The keys of the options, in the order in which they are checked. -/
def keys : List String :=
  ["commonjs", "prototypes", "allowThis", "functionProps", "exceptions", "reducers",
    "useLodashFunctionImports", "ignoredMethods"]

/-! ### One key -/

theorem flag_congr (h : raw.get? key = raw'.get? key) : flag raw key = flag raw' key := by
  rw [flag, flag, h]

theorem names_congr {standard : List Text} (h : raw.get? key = raw'.get? key) :
    names raw key standard = names raw' key standard := by
  rw [names, names, h]

theorem exceptionList_congr (h : raw.get? "exceptions" = raw'.get? "exceptions") :
    exceptionList raw = exceptionList raw' := by
  rw [exceptionList, exceptionList, h]

theorem failure?_names (standard standard' : List Text) :
    failure? (names raw key standard) = failure? (names raw key standard') := by
  unfold names
  split
  · rfl
  · rfl
  · split <;> rfl
  · rfl

def faultAt? (raw : Fields) (key : String) : Option OptionFault :=
  if key = "exceptions" then failure? (exceptionList raw)
  else if key = "reducers" ∨ key = "ignoredMethods" then failure? (names raw key [])
  else failure? (flag raw key)

theorem faultAt?_congr (h : raw.get? key = raw'.get? key) :
    faultAt? raw key = faultAt? raw' key := by
  unfold faultAt?
  split
  · rename_i he
    rw [exceptionList_congr (he ▸ h)]
  · rw [names_congr h, flag_congr h]

theorem faultAt?_of_absent (h : raw.get? key = none) : faultAt? raw key = none := by
  rw [faultAt?_congr (h.trans (Fields.get?_empty key).symm)]
  unfold faultAt?
  split
  · rfl
  · split <;> rfl

/-! ### All keys -/

theorem ofFields_congr (h : ∀ key ∈ keys, raw.get? key = raw'.get? key) :
    ofFields raw = ofFields raw' := by
  simp only [keys, List.forall_mem_cons] at h
  obtain ⟨h₁, h₂, h₃, h₄, h₅, h₆, h₇, h₈, -⟩ := h
  rw [ofFields, ofFields, flag_congr h₁, flag_congr h₂, flag_congr h₃, flag_congr h₄,
    exceptionList_congr h₅, names_congr h₆, flag_congr h₇, names_congr h₈]

theorem ofFields_eq_ok_iff {o : Options} : ofFields raw = .ok o ↔
    flag raw "commonjs" = .ok o.commonjs ∧ flag raw "prototypes" = .ok o.prototypes ∧
      flag raw "allowThis" = .ok o.allowThis ∧ flag raw "functionProps" = .ok o.functionProps ∧
      exceptionList raw = .ok o.exceptions ∧
      names raw "reducers" ["reduce"] = .ok o.reducers ∧
      flag raw "useLodashFunctionImports" = .ok o.lodashImports ∧
      names raw "ignoredMethods" [] = .ok o.ignoredMethods := by
  constructor
  · intro h
    obtain ⟨commonjs, h₁, h⟩ := exists_of_bind_eq_ok h
    obtain ⟨prototypes, h₂, h⟩ := exists_of_bind_eq_ok h
    obtain ⟨allowThis, h₃, h⟩ := exists_of_bind_eq_ok h
    obtain ⟨functionProps, h₄, h⟩ := exists_of_bind_eq_ok h
    obtain ⟨exceptions, h₅, h⟩ := exists_of_bind_eq_ok h
    obtain ⟨reducers, h₆, h⟩ := exists_of_bind_eq_ok h
    obtain ⟨lodashImports, h₇, h⟩ := exists_of_bind_eq_ok h
    obtain ⟨ignoredMethods, h₈, h⟩ := exists_of_bind_eq_ok h
    obtain rfl := Except.ok.inj h
    exact ⟨h₁, h₂, h₃, h₄, h₅, h₆, h₇, h₈⟩
  · rintro ⟨h₁, h₂, h₃, h₄, h₅, h₆, h₇, h₈⟩
    rw [ofFields, h₁, h₂, h₃, h₄, h₅, h₆, h₇, h₈]
    rfl

theorem failure?_ofFields (raw : Fields) :
    failure? (ofFields raw) = keys.findSome? (faultAt? raw) := by
  simp only [keys, findSome?_cons_eq_or, List.findSome?_nil]
  unfold ofFields
  refine failure?_bind fun _ => failure?_bind fun _ => failure?_bind fun _ => failure?_bind fun _ =>
    failure?_bind fun _ => ?_
  rw [show faultAt? raw "reducers" = failure? (names raw "reducers" ["reduce"]) from
    failure?_names [] ["reduce"]]
  exact failure?_bind fun _ => failure?_bind fun _ => failure?_bind fun _ => rfl

def refusal? (key : String) (value : Value) : Option OptionFault :=
  failure? (ofFields (Fields.empty.set key value))

theorem refusal?_eq (hkey : key ∈ keys) (value : Value) :
    refusal? key value = faultAt? (Fields.empty.set key value) key := by
  rw [refusal?, failure?_ofFields]
  refine findSome?_eq_of_others hkey fun other _ hne => faultAt?_of_absent ?_
  rw [Fields.get?_set, if_neg fun h => hne (Text.ofString_inj h), Fields.get?_empty]

theorem faultAt?_eq (hkey : key ∈ keys) :
    faultAt? raw key = (raw.get? key).bind (refusal? key) := by
  cases h : raw.get? key with
  | none => rw [faultAt?_of_absent h, Option.bind_none]
  | some value =>
    rw [Option.bind_some, refusal?_eq hkey]
    refine faultAt?_congr (h.trans ?_)
    rw [Fields.get?_set, if_pos rfl]

/-- An object is refused for the first of its values that is refused alone. -/
theorem ofFields_eq_error_iff {fault : OptionFault} : ofFields raw = .error fault ↔
    (keys.findSome? fun (key : String) => (raw.get? key).bind (refusal? key)) = some fault := by
  rw [← failure?_eq_some_iff, failure?_ofFields, ← List.head?_filterMap, ← List.head?_filterMap,
    List.filterMap_congr fun key hkey => faultAt?_eq hkey]

/-! ### What can be wrong -/

variable {f : OptionFault}

theorem flag_fault (h : flag raw key = .error f) : f ≠ .notObject := by
  unfold flag at h
  split at h <;> cases h
  simp

theorem names_fault {standard : List Text} (h : names raw key standard = .error f) :
    f ≠ .notObject := by
  unfold names at h
  split at h
  · cases h
  · cases h
  · split at h <;> cases h
    simp
  · cases h
    simp

theorem side_fault {entry : Fields} (h : side entry key = .error f) : f ≠ .notObject := by
  unfold side at h
  split at h <;> cases h
  simp

theorem exception_fault {v : Value} (h : exception v = .error f) : f ≠ .notObject := by
  unfold exception at h
  split at h
  · rcases bind_eq_error_iff.mp h with h | ⟨object, -, h⟩
    · exact side_fault h
    · rcases bind_eq_error_iff.mp h with h | ⟨property, -, h⟩
      · exact side_fault h
      · cases h
  · cases h
    simp

theorem exceptionList_fault (h : exceptionList raw = .error f) : f ≠ .notObject := by
  unfold exceptionList at h
  split at h
  · cases h
  · split_ifs at h
    split at h
    · obtain ⟨v, -, hv⟩ := exists_of_mapM_eq_error h
      exact exception_fault hv
    · cases h
      simp

/-- Fields are refused for one of their values, never for not being an object. -/
theorem ofFields_fault (h : ofFields raw = .error f) : f ≠ .notObject := by
  rw [← failure?_eq_some_iff, failure?_ofFields] at h
  obtain ⟨key, -, hkey⟩ := List.exists_of_findSome?_eq_some h
  unfold faultAt? at hkey
  split_ifs at hkey
  · exact exceptionList_fault (failure?_eq_some_iff.mp hkey)
  · exact names_fault (failure?_eq_some_iff.mp hkey)
  · exact flag_fault (failure?_eq_some_iff.mp hkey)

end Options
end MutationLint
