import MutationLint.Config.Project
import MutationLint.Proofs.Config.Options

/-! The layers of a configuration. The options of a rule are those of the object in which each known
key has the value of the most specific layer that has the key; nothing else in the layers counts. -/

namespace MutationLint

namespace Fields

theorem get?_setAll_filterMap (fields : Fields) (f : String → Option Value) (keys : List String)
    (key : String) :
    (fields.setAll (keys.filterMap fun k => (f k).map (Text.ofString k, ·))).get? key =
      if key ∈ keys then (f key).or (fields.get? key) else fields.get? key := by
  induction keys generalizing fields with
  | nil => simp
  | cons k rest ih =>
    have hkey : Text.ofString key = Text.ofString k ↔ key = k := Text.ofString_eq_iff
    cases hf : f k with
    | none =>
      rw [List.filterMap_cons_none (by rw [hf]; rfl), ih]
      by_cases hk : key = k
      · simp [hk, hf]
      · simp [hk]
    | some v =>
      rw [List.filterMap_cons_some (by rw [hf]; rfl), setAll_cons, ih, get?_set]
      by_cases hk : key = k
      · simp [hk, hf]
      · simp [hkey, hk]

end Fields

namespace Project

/-- The entry of a rule in a configuration object, when it is an object in turn. -/
def ruleFields? (raw : Fields) (rule : Text) : Option Fields :=
  (((raw.get? "rules").bind Value.object?).bind (Fields.get? · rule)).bind Value.object?

/-- The value that counts for a key: that of the overrides, else that of the rule's entry, else that
of the configuration object. -/
def winning? (raw : Fields) (rule : Text) (overrides : Fields) (key : Text) : Option Value :=
  (overrides.get? key).or (((ruleFields? raw rule).bind (Fields.get? · key)).or (raw.get? key))

def winners (raw : Fields) (rule : Text) (overrides : Fields) : Fields :=
  .ofList (Options.keys.filterMap fun key =>
    (winning? raw rule overrides (Text.ofString key)).map (Text.ofString key, ·))

section
variable {raw : Fields} {source : Option Path} {p : Project} {rule : Text} {overrides : Fields}

theorem of_ofValue (accepted : ofValue (.object raw.entries) source = .ok p) :
    p.options = raw.erase "rules" ∧
      ∀ rule, (p.rules.get? rule).bind Value.object? = ruleFields? raw rule := by
  simp only [ofValue, Value.object?, Fields.ofList_entries] at accepted
  split at accepted
  · rename_i hbare
    obtain rfl := Except.ok.inj accepted
    refine ⟨rfl, fun rule => ?_⟩
    -- of the bare values only the empty object has entries to look among, and it has none
    cases hrules : raw.get? "rules" with
    | none => simp [ruleFields?, hrules]
    | some v =>
      rw [hrules, Option.getD_some] at hbare
      cases v with
      | object entries =>
        cases entries with
        | nil => simp [ruleFields?, hrules, Value.object?, Fields.ofList]
        | cons e rest => cases hbare
      | _ => simp [ruleFields?, hrules, Value.object?]
  · split at accepted
    · rename_i entries hentries
      obtain rfl := Except.ok.inj accepted
      refine ⟨rfl, fun rule => ?_⟩
      cases hrules : raw.get? "rules" with
      | none => simp [hrules] at hentries
      | some v =>
        rw [hrules, Option.getD_some] at hentries
        cases v with
        | object l =>
          obtain rfl := Option.some.inj hentries
          simp [ruleFields?, hrules, Value.object?]
        | _ => cases hentries
    · cases accepted

theorem get?_merged (accepted : ofValue (.object raw.entries) source = .ok p) {key : Text}
    (hkey : key ≠ "rules") :
    (p.merged rule overrides).get? key = winning? raw rule overrides key := by
  obtain ⟨hoptions, hrules⟩ := of_ofValue accepted
  have hshared : p.options.get? key = raw.get? key := by
    rw [hoptions, Fields.get?_erase, if_neg hkey]
  rw [merged, winning?, Fields.get?_merge, hrules]
  cases ruleFields? raw rule with
  | none => rw [Option.getD_none, Fields.merge_empty, hshared, Option.bind_none, Option.none_or]
  | some entry => rw [Option.getD_some, Fields.get?_merge, hshared, Option.bind_some]

theorem get?_winners {key : String} (hkey : key ∈ Options.keys) :
    (winners raw rule overrides).get? key = winning? raw rule overrides key := by
  rw [winners, Fields.ofList,
    Fields.get?_setAll_filterMap _ fun key => winning? raw rule overrides (Text.ofString key),
    if_pos hkey, Fields.get?_empty, Option.or_none]

theorem optionsFor_eq_ofFields (accepted : ofValue (.object raw.entries) source = .ok p)
    (rule : Text) (overrides : Fields) :
    p.optionsFor rule overrides = Options.ofFields (winners raw rule overrides) := by
  refine Options.ofFields_congr fun key hkey => ?_
  have hrules : "rules" ∉ Options.keys := by decide
  have hne : Text.ofString key ≠ "rules" := fun h => hrules (Text.ofString_inj h ▸ hkey)
  rw [get?_merged accepted hne, get?_winners hkey]

/-- The options of a rule are decided key by key, the layers having one value for a key. They are
those of the object of winning values, or its fault; the fault is that of the first winning value,
in the order of the keys, that is refused alone; and whatever else two configurations hold, they
give the same options or the same fault when they have the same winning values. -/
theorem optionsFor_decided_by_winning (accepted : ofValue (.object raw.entries) source = .ok p)
    (rule : Text) (overrides : Fields) :
    p.optionsFor rule overrides = Options.ofFields (winners raw rule overrides) ∧
      (∀ fault, p.optionsFor rule overrides = .error fault ↔
        (Options.keys.findSome? fun key =>
          (winning? raw rule overrides (Text.ofString key)).bind (Options.refusal? key)) =
            some fault) ∧
      ∀ (raw' : Fields) (source' : Option Path) (p' : Project) (rule' : Text) (overrides' : Fields),
        ofValue (.object raw'.entries) source' = .ok p' →
        (∀ key ∈ Options.keys, winning? raw' rule' overrides' (Text.ofString key) =
          winning? raw rule overrides (Text.ofString key)) →
        p'.optionsFor rule' overrides' = p.optionsFor rule overrides := by
  have hequal := optionsFor_eq_ofFields accepted rule overrides
  refine ⟨hequal, fun fault => ?_, ?_⟩
  · rw [hequal, Options.ofFields_eq_error_iff, ← List.head?_filterMap, ← List.head?_filterMap,
      List.filterMap_congr fun key hkey => by rw [get?_winners hkey]]
  · intro raw' source' p' rule' overrides' accepted' hsame
    rw [hequal, optionsFor_eq_ofFields accepted' rule' overrides']
    refine Options.ofFields_congr fun key hkey => ?_
    rw [get?_winners hkey, get?_winners hkey, hsame key hkey]

end

/-- The entries of two rules; one has an ill-typed value. -/
def layeredRules : Fields :=
  .ofList
    [("no-mutation", .object [("ignoredMethods", .int 3), ("commonjs", .bool true)]),
      ("no-mutating-functions", .object [("prototypes", .null)])]

/-- A configuration whose `commonjs`, though ill-typed, is hidden by the entry of a rule. -/
def layeredRaw : Fields :=
  .ofList
    [("commonjs", .int 5), ("colour", .list []), ("rules", .object layeredRules.entries),
      ("reducers", .string "map")]

/-- The same values without layers, in another order and with other values beside them. -/
def flatRaw : Fields :=
  .ofList
    [("ignoredMethods", .int 3), ("reducers", .string "map"), ("allowThis", .null),
      ("rules", .null), ("commonjs", .bool true)]

def allowingThis : Fields := Fields.empty.set "allowThis" (.bool true)

/-- Of the two ill-typed winning values the one that is checked first is reported, and so it is when
the values stand in one object. -/
theorem layered_decided_by_winning :
    ∃ p p', ofValue (.object layeredRaw.entries) none = .ok p ∧
      ofValue (.object flatRaw.entries) none = .ok p' ∧
      p.optionsFor "no-mutation" allowingThis = .error (.notNames "reducers" (.string "map")) ∧
      p.optionsFor "no-mutation" allowingThis =
        Options.ofFields (winners layeredRaw "no-mutation" allowingThis) ∧
      p'.optionsFor "other" allowingThis = p.optionsFor "no-mutation" allowingThis := by
  have haccepted : ofValue (.object layeredRaw.entries) none =
      .ok ⟨layeredRaw.erase "rules", layeredRules, none⟩ := by rfl
  have hflat : ofValue (.object flatRaw.entries) none =
      .ok ⟨flatRaw.erase "rules", .empty, none⟩ := by rfl
  have hlayers : ruleFields? layeredRaw "no-mutation" =
      some (.ofList [("ignoredMethods", .int 3), ("commonjs", .bool true)]) := by rfl
  have hflatLayers : ruleFields? flatRaw "other" = none := by rfl
  obtain ⟨hequal, hfault, hsame⟩ :=
    optionsFor_decided_by_winning haccepted "no-mutation" allowingThis
  refine ⟨_, _, haccepted, hflat, (hfault _).mpr (by rfl), hequal,
    hsame _ _ _ "other" _ hflat ?_⟩
  simp only [winning?, hlayers, hflatLayers]
  simp [Options.keys, flatRaw, layeredRaw, allowingThis, Fields.ofList, Fields.get?_set,
    Text.ofString_eq_iff]

end Project
end MutationLint
