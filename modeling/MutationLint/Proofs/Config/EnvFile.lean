import Mathlib.Data.List.Induction
import Mathlib.Data.List.Nodup
import MutationLint.Config.EnvFile
import MutationLint.Proofs.Node.Assembly

/-! Settings files over an environment. A file gives each variable that is not set the last value it
holds for it, and a variable that is set keeps its value. -/

namespace MutationLint

namespace Environment

theorem get?_set (env : Environment) (name value other : Text) :
    (env.set name value).get? other = if other = name then some value else env.get? other := by
  rw [set, get?, Text.lookup_cons, Text.lookup_filter_ne]
  by_cases h : other = name <;> simp [h, get?]

theorem get?_unset (env : Environment) (name other : Text) :
    (env.unset name).get? other = if other = name then none else env.get? other :=
  Text.lookup_filter_ne _ _ _

theorem eq_set_of_assign {env env' : Environment} {name value : Text}
    (h : env.assign name value = .ok env') : env' = env.set name value := by
  rw [assign] at h
  split at h
  · cases h
  · exact (Except.ok.inj h).symm

theorem get?_assignNew {env env' : Environment} {name value : Text}
    (h : env.assignNew name value = .ok env') (other : Text) :
    env'.get? other = (env.get? other).or (if other = name then some value else none) := by
  rw [assignNew] at h
  by_cases hset : (env.get? name).isSome = true
  · rw [if_pos hset] at h
    cases h
    obtain ⟨v, hv⟩ := Option.isSome_iff_exists.mp hset
    by_cases ho : other = name <;> simp [ho, hv]
  · rw [if_neg hset] at h
    rw [eq_set_of_assign h, get?_set]
    by_cases ho : other = name <;> simp [ho, Option.not_isSome_iff_eq_none.mp hset]

theorem obstacle?_of_assignNew {env : Environment} {name value : Text} {f : EnvFault}
    (h : env.assignNew name value = .error f) : obstacle? name value = some f := by
  rw [assignNew] at h
  split_ifs at h
  rw [assign] at h
  split at h
  · rename_i hf
    cases h
    exact hf
  · cases h

theorem isEmpty_of_obstacle? {name value : Text} (h : obstacle? name value = some .emptyName) :
    name.isEmpty = true := by
  unfold obstacle? at h
  split_ifs at h with hcode hzero hname hempty
  · cases h
  · cases h
  · cases h
  · exact hempty

end Environment

namespace Values

theorem any_iff {known : Values} {name : Text} :
    known.any (·.1 == name) = true ↔ name ∈ known.map (·.1) := by
  simp [List.any_eq_true]

theorem lookup_of_not_mem {known : Values} {name : Text} (h : name ∉ known.map (·.1)) :
    known.lookup name = none := by
  rw [List.lookup_eq_none_iff]
  intro k hk
  rw [bne_iff_ne]
  rintro rfl
  exact h (List.mem_map_of_mem hk)

theorem join_lookup_cons {given : Values} {name : Text} (h : given.lookup name = none)
    (value : Option Text) (other : Text) :
    (List.lookup other ((name, value) :: given)).join =
      (if other = name then value else none).or (given.lookup other).join := by
  rw [Text.lookup_cons]
  by_cases ho : other = name
  · simp [ho, h]
  · simp [ho]

theorem names_record (known : Values) (name : Text) (value : Option Text) :
    (known.record name value).map (·.1) =
      if name ∈ known.map (·.1) then known.map (·.1) else known.map (·.1) ++ [name] := by
  rw [record]
  by_cases h : known.any (·.1 == name) = true
  · rw [if_pos h, if_pos (any_iff.mp h), List.map_map]
    refine List.map_congr_left fun k _ => ?_
    by_cases hk : k.1 = name <;> simp [hk]
  · rw [if_neg h, if_neg (mt any_iff.mpr h), List.map_append]
    rfl

theorem lookup_replace_of_ne {name other : Text} (h : other ≠ name) (known : Values)
    (value : Option Text) :
    (known.map fun k => if k.1 == name then (name, value) else k).lookup other =
      known.lookup other := by
  induction known with
  | nil => rfl
  | cons k rest ih =>
    obtain ⟨n, v⟩ := k
    rw [List.map_cons, Text.lookup_cons n v, ← ih]
    by_cases hn : n = name
    · rw [if_pos (by simpa using hn), Text.lookup_cons, if_neg h, if_neg (hn ▸ h)]
    · rw [if_neg (by simpa using hn), Text.lookup_cons]

theorem lookup_replace_self {known : Values} {name : Text} (h : name ∈ known.map (·.1))
    (value : Option Text) :
    (known.map fun k => if k.1 == name then (name, value) else k).lookup name = some value := by
  induction known with
  | nil => cases h
  | cons k rest ih =>
    obtain ⟨n, v⟩ := k
    rw [List.map_cons]
    by_cases hn : n = name
    · rw [if_pos (by simpa using hn), Text.lookup_cons, if_pos rfl]
    · rw [if_neg (by simpa using hn), Text.lookup_cons, if_neg (Ne.symm hn)]
      exact ih ((List.mem_cons.mp h).resolve_left (Ne.symm hn))

theorem lookup_record (known : Values) (name : Text) (value : Option Text) (other : Text) :
    (known.record name value).lookup other =
      if other = name then some value else known.lookup other := by
  rw [record]
  by_cases h : known.any (·.1 == name) = true
  · rw [if_pos h]
    by_cases ho : other = name
    · rw [if_pos ho, ho, lookup_replace_self (any_iff.mp h)]
    · rw [if_neg ho, lookup_replace_of_ne ho]
  · rw [if_neg h, List.lookup_append, Text.lookup_cons, List.lookup_nil]
    by_cases ho : other = name
    · simp [ho, lookup_of_not_mem (mt any_iff.mpr h)]
    · simp [ho]

theorem latest_concat (held : Values) (f : Text × Option Text) :
    (held ++ [f]).latest = held.latest.record f.1 f.2 :=
  List.foldl_concat _ _ _ _

theorem lookup_latest (held : Values) (name : Text) :
    held.latest.lookup name = held.reverse.lookup name := by
  induction held using List.reverseRecOn with
  | nil => rfl
  | append_singleton rest f ih =>
    rw [latest_concat, lookup_record, ih, List.reverse_append, List.reverse_singleton,
      List.singleton_append, Text.lookup_cons]

theorem lookup_latest_of_last {held above below : Values} {name : Text} {value : Option Text}
    (hheld : held = above ++ (name, value) :: below) (hlast : ∀ f ∈ below, f.1 ≠ name) :
    held.latest.lookup name = some value := by
  have hbelow : below.reverse.lookup name = none :=
    lookup_of_not_mem (by simpa using fun v hv => hlast (name, v) hv rfl)
  rw [lookup_latest, hheld, List.reverse_append, List.reverse_cons, List.append_assoc,
    List.lookup_append, hbelow, Option.none_or, List.singleton_append, Text.lookup_cons, if_pos rfl]

theorem nodup_latest (held : Values) : (held.latest.map (·.1)).Nodup := by
  induction held using List.reverseRecOn with
  | nil => exact List.nodup_nil
  | append_singleton rest f ih =>
    rw [latest_concat, names_record]
    split_ifs with h
    · exact ih
    · exact List.nodup_append_comm.mp (List.nodup_cons.mpr ⟨h, ih⟩)

theorem names_latest_subset (held : Values) : held.latest.map (·.1) ⊆ held.map (·.1) := by
  induction held using List.reverseRecOn with
  | nil => exact List.Subset.refl _
  | append_singleton rest f ih =>
    intro name h
    rw [latest_concat, names_record] at h
    rw [List.map_append, List.mem_append]
    split_ifs at h
    · exact .inl (ih h)
    · exact (List.mem_append.mp h).imp_left fun h => ih h

end Values

namespace EnvFile

open Values

/-! ### What a file assigns -/

theorem assignments_concat (env : Environment) (ss : List Setting) (s : Setting) :
    assignments env (ss ++ [s]) =
      assignments env ss ++ [(s.1, s.2.map (expanded env (assignments env ss)))] :=
  List.foldl_concat _ _ _ _

theorem names_assignments (env : Environment) (ss : List Setting) :
    (assignments env ss).map (·.1) = ss.map (·.1) := by
  induction ss using List.reverseRecOn with
  | nil => rfl
  | append_singleton rest s ih => rw [assignments_concat, List.map_append, ih, List.map_append]; rfl

/-- What stands below assigns to the names it has, after all that stands above. -/
theorem exists_assignments_append (env : Environment) (above below : List Setting) :
    ∃ rest, assignments env (above ++ below) = assignments env above ++ rest ∧
      rest.map (·.1) = below.map (·.1) := by
  induction below using List.reverseRecOn with
  | nil => exact ⟨[], by simp, rfl⟩
  | append_singleton below s ih =>
    obtain ⟨rest, hrest, hnames⟩ := ih
    refine ⟨rest ++ [(s.1, s.2.map (expanded env (assignments env (above ++ below))))], ?_, ?_⟩
    · rw [← List.append_assoc, assignments_concat]
      simp only [hrest, List.append_assoc]
    · rw [List.map_append, List.map_append, hnames, List.map_singleton, List.map_singleton]

theorem lookup_latest_assignments (env : Environment) {above below : List Setting} {name : Text}
    {value : Option (List Char)} (hlast : ∀ s ∈ below, s.1 ≠ name) :
    (assignments env (above ++ (name, value) :: below)).latest.lookup name =
      some (value.map (expanded env (assignments env above))) := by
  obtain ⟨rest, hrest, hnames⟩ := exists_assignments_append env (above ++ [(name, value)]) below
  rw [List.append_assoc, List.singleton_append, assignments_concat, List.append_assoc,
    List.singleton_append] at hrest
  refine lookup_latest_of_last hrest fun f hf he => ?_
  have hmem : f.1 ∈ below.map (·.1) := hnames ▸ List.mem_map_of_mem hf
  obtain ⟨s, hs, hname⟩ := List.mem_map.mp hmem
  exact hlast s hs (hname.trans he)

/-! ### Giving values -/

/-- Values are given to the variables that are not set, from the first on up to the one that cannot
be given; to all of them when there is no such one. -/
theorem exists_given {known : Values} (hnodup : (known.map (·.1)).Nodup) :
    ∀ env : Environment, ∃ given, given <+: known ∧
      ((assignAll env known).2 = none → given = known) ∧
      ∀ name, (assignAll env known).1.get? name = (env.get? name).or (given.lookup name).join := by
  induction known with
  | nil => exact fun env => ⟨[], List.prefix_refl _, fun _ => rfl, by simp [assignAll]⟩
  | cons k rest ih =>
    intro env
    obtain ⟨n, v⟩ := k
    rw [List.map_cons, List.nodup_cons] at hnodup
    -- whatever is given after the first name is not given to that name again
    have hnew {given : Values} (h : given <+: rest) : given.lookup n = none :=
      lookup_of_not_mem fun hmem => hnodup.1 ((h.map _).subset hmem)
    cases v with
    | none =>
      obtain ⟨given, hprefix, hall, hget⟩ := ih hnodup.2 env
      refine ⟨(n, none) :: given, List.prefix_cons_inj _ |>.mpr hprefix, fun h => ?_, fun m => ?_⟩
      · rw [hall h]
      · rw [assignAll, hget, join_lookup_cons (hnew hprefix), ite_self, Option.none_or]
    | some value =>
      rw [assignAll]
      cases ha : env.assignNew n value with
      | error f => exact ⟨[], List.nil_prefix, by simp, by simp⟩
      | ok env' =>
        obtain ⟨given, hprefix, hall, hget⟩ := ih hnodup.2 env'
        refine ⟨(n, some value) :: given, List.prefix_cons_inj _ |>.mpr hprefix, fun h => ?_,
          fun m => ?_⟩
        · rw [hall h]
        · dsimp only
          rw [hget, Environment.get?_assignNew ha, join_lookup_cons (hnew hprefix), Option.or_assoc]

/-- A fault is the obstacle of one of the values. -/
theorem obstacle?_of_assignAll {known : Values} {f : EnvFault} : ∀ {env : Environment},
    (assignAll env known).2 = some f →
      ∃ name value, (name, some value) ∈ known ∧ Environment.obstacle? name value = some f := by
  induction known with
  | nil => intro env h; cases h
  | cons k rest ih =>
    intro env h
    obtain ⟨n, v⟩ := k
    cases v with
    | none =>
      obtain ⟨name, value, hmem, ho⟩ := ih h
      exact ⟨name, value, List.mem_cons_of_mem _ hmem, ho⟩
    | some value =>
      rw [assignAll] at h
      cases ha : env.assignNew n value with
      | error g =>
        rw [ha] at h
        cases h
        exact ⟨n, value, List.mem_cons_self, Environment.obstacle?_of_assignNew ha⟩
      | ok env' =>
        rw [ha] at h
        obtain ⟨name, value, hmem, ho⟩ := ih h
        exact ⟨name, value, List.mem_cons_of_mem _ hmem, ho⟩

/-! ### Names -/

theorem isEmpty_ofChars {cs : List Char} (h : cs.isEmpty = false) :
    (Text.ofChars cs).isEmpty = false := by
  cases cs with
  | nil => cases h
  | cons c rest => rfl

theorem isEmpty_of_key? {cs rest : List Char} {name : Text} (h : key? cs = some (some name, rest)) :
    name.isEmpty = false := by
  unfold key? at h
  split at h
  · cases h
  · obtain ⟨⟨k, r⟩, hk, he⟩ := Option.map_eq_some_iff.mp h
    cases he
    unfold singleQuotedKey? at hk
    simp only at hk
    split at hk
    · split_ifs at hk with hempty
      cases hk
      exact isEmpty_ofChars (by simpa using hempty)
    · cases hk
  · obtain ⟨⟨k, r⟩, hk, he⟩ := Option.map_eq_some_iff.mp h
    cases he
    unfold bareKey? at hk
    simp only at hk
    split_ifs at hk with hempty
    cases hk
    exact isEmpty_ofChars (by simpa using hempty)

theorem isEmpty_of_setting {cs rest : List Char} {s : Setting}
    (h : setting cs = .ok (some s, rest)) : s.1.isEmpty = false := by
  unfold setting at h
  simp only at h
  split at h
  · cases h
  · rename_i key r hkey
    -- whether there is a value and what it is, the setting that is read has the name
    have hname : ∃ value, key.map (fun k => (k, value)) = some s := by
      split at h
      · split at h
        all_goals
          obtain ⟨x, -, h⟩ := exists_of_bind_eq_ok h
          split at h
          · exact ⟨x.1, (Prod.mk.inj (Except.ok.inj h)).1⟩
          · cases h
      · obtain ⟨x, -, h⟩ := exists_of_bind_eq_ok h
        split at h
        · exact ⟨x.1, (Prod.mk.inj (Except.ok.inj h)).1⟩
        · cases h
    obtain ⟨value, hname⟩ := hname
    obtain ⟨name, rfl, rfl⟩ := Option.map_eq_some_iff.mp hname
    exact isEmpty_of_key? hkey

theorem isEmpty_of_mem_settingsFrom {s : Setting} : ∀ {fuel : Nat} {cs : List Char},
    s ∈ settingsFrom fuel cs → s.1.isEmpty = false := by
  intro fuel
  induction fuel with
  | zero => intro cs h; cases h
  | succ fuel ih =>
    intro cs h
    rw [settingsFrom] at h
    split at h
    · cases h
    · split at h
      · rename_i found rest hfound
        rcases List.mem_append.mp h with h | h
        · cases found with
          | none => cases h
          | some t =>
            obtain rfl : s = t := by simpa using h
            exact isEmpty_of_setting hfound
        · exact ih h
      · exact ih h

/-- No file can fail for a name that is empty. -/
theorem load_fault {env : Environment} {text : String} {f : EnvFault}
    (h : (load env text).2 = some f) : f ≠ .emptyName := by
  rintro rfl
  obtain ⟨name, value, hmem, ho⟩ := obstacle?_of_assignAll h
  have hname := names_latest_subset _ (List.mem_map_of_mem hmem)
  rw [names_assignments] at hname
  obtain ⟨s, hs, rfl⟩ := List.mem_map.mp hname
  cases (isEmpty_of_mem_settingsFrom hs).symm.trans (Environment.isEmpty_of_obstacle? ho)

end EnvFile
end MutationLint
