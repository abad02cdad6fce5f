import MutationLint.Proofs.Linter.Independence
import MutationLint.Proofs.Rule.Relaxation

/-! The advice in a message. Some findings end with the suggestion to turn an option on. Turning it
on takes away exactly the findings of the category that suggests it, and no finding suggests an
option that is on already. -/

namespace MutationLint

/-- An option that a message may suggest. -/
inductive Advice where
  | commonjs
  | prototypes
  deriving DecidableEq, Repr

namespace Advice

def name : Advice → String
  | .commonjs => "commonjs"
  | .prototypes => "prototypes"

def sentence (a : Advice) : String :=
  "`. You may want to activate the `" ++ a.name ++ "` option for this rule"

def category : Advice → Category
  | .commonjs => .commonJs
  | .prototypes => .prototypes

def isFollowed : Advice → Options → Bool
  | .commonjs, o => o.commonjs
  | .prototypes, o => o.prototypes

def follow : Advice → Options → Options
  | .commonjs, o => { o with commonjs := true }
  | .prototypes, o => { o with prototypes := true }

def covers : Advice → Site → Bool
  | .commonjs, s => s.writesExports
  | .prototypes, s => s.writesPrototype

end Advice

/-- The message of the finding ends with the advice. -/
def Finding.Suggests (f : Finding) (a : Advice) : Prop := a.sentence.toList <:+ f.message.toList

/-! ### Messages -/

namespace Template

/-- What a message ends with, whatever it names. -/
def ending (t : Template) : String := if t.slot.isSome then t.tail else t.lead ++ t.tail

theorem ending_suffix_fill (t : Template) (named : String) :
    t.ending.toList <:+ (t.fill named).toList := by
  unfold ending fill
  split_ifs
  · simp only [String.toList_append]
    exact List.suffix_append _ _
  · simp

end Template

/-- A message ends with an advice exactly when its category gives it, whatever it names. -/
theorem sentence_suffix_fill_iff {a : Advice} {k : Category} {named : String} :
    a.sentence.toList <:+ (k.template.fill named).toList ↔ k = a.category := by
  have hending := k.template.ending_suffix_fill named
  constructor
  · intro h
    -- two ends of one message: one of them ends with the other
    rcases List.suffix_or_suffix_of_suffix h hending with hs | hs
    · revert hs
      cases a <;> cases k <;> decide
    · revert hs
      cases a <;> cases k <;> decide
  · rintro rfl
    have hsentence : a.sentence = a.category.template.ending := by cases a <;> rfl
    rwa [hsentence]

/-! ### Violations -/

namespace Advice

variable {a : Advice} {o : Options} {s : Site}

theorem follow_eq_self (h : a.isFollowed o = true) : a.follow o = o := by
  cases a
  · simp only [follow, ← show o.commonjs = true from h]
  · simp only [follow, ← show o.prototypes = true from h]

@[simp] theorem patterns_follow : (a.follow o).patterns = o.patterns := by cases a <;> rfl

@[simp] theorem reducers_follow : (a.follow o).reducers = o.reducers := by cases a <;> rfl

@[simp] theorem isLocal_follow {target : Option Node} {start : Option Site} :
    Rule.isLocal (a.follow o) target start = Rule.isLocal o target start := by
  cases a <;> rfl

theorem isExempt_follow : s.isExempt (a.follow o) = (s.isExempt o || a.covers s) := by
  simp only [Site.isExempt, patterns_follow, reducers_follow]
  cases a
  · simp only [follow, covers]
    cases s.writesExports <;> simp
  · simp only [follow, covers]
    cases s.writesPrototype <;> simp

theorem covers_of_category_eq (h : s.category = a.category) :
    (∃ operator, s.label = .assignment operator) ∧ a.covers s = true := by
  unfold Site.category at h
  split at h
  · rename_i operator hl
    refine ⟨⟨operator, hl⟩, ?_⟩
    unfold Site.errorType at h
    cases a <;> split_ifs at h <;> simp_all [covers, category, ErrorType.category]
  · rename_i operator leading hl
    cases a <;> cases operator <;> cases h
  · cases a <;> cases h

/-- What is written both to exports and to a prototype counts as written to exports. -/
theorem category_eq_of_covers {operator : String} (hl : s.label = .assignment operator)
    (hexports : a = .prototypes → s.writesExports = false) (h : a.covers s = true) :
    s.category = a.category := by
  unfold Site.category Site.errorType
  cases a
  · simp_all [covers, category, ErrorType.category]
  · simp_all [covers, category, ErrorType.category]

/-- With the option on, the violations are the earlier ones that are not of its category. Where
prototypes are concerned, exports have to be exempt before. -/
theorem violates_follow_iff (exports : a = .prototypes → o.commonjs = true) :
    Rule.noMutation.Violates (a.follow o) s ↔
      Rule.noMutation.Violates o s ∧ s.category ≠ a.category := by
  by_cases hl : ∃ operator, s.label = .assignment operator
  · obtain ⟨operator, hl⟩ := hl
    simp only [Rule.Violates, hl, isExempt_follow, isLocal_follow, Bool.or_eq_false_iff]
    constructor
    · rintro ⟨⟨hexempt, hcovers⟩, hlocal⟩
      refine ⟨⟨hexempt, hlocal⟩, fun h => ?_⟩
      rw [(covers_of_category_eq h).2] at hcovers
      cases hcovers
    · rintro ⟨⟨hexempt, hlocal⟩, hcategory⟩
      refine ⟨⟨hexempt, Bool.eq_false_iff.mpr fun h => hcategory ?_⟩, hlocal⟩
      refine category_eq_of_covers hl (fun ha => ?_) h
      simp only [Site.isExempt, exports ha, Bool.true_and, Bool.or_eq_false_iff] at hexempt
      exact hexempt.1.1.1
  · have hcategory : s.category ≠ a.category := fun h => hl (covers_of_category_eq h).1
    simp only [hcategory, ne_eq, not_false_eq_true, and_true]
    unfold Rule.Violates
    split
    · rename_i hlabel
      exact absurd ⟨_, hlabel⟩ hl
    · rw [isLocal_follow]
    · contradiction
    · exact Iff.rfl

theorem category_ne_of_isFollowed (followed : a.isFollowed o = true)
    (hs : Rule.noMutation.Violates o s) : s.category ≠ a.category := by
  intro h
  obtain ⟨⟨operator, hl⟩, hcovers⟩ := covers_of_category_eq h
  have hexempt : s.isExempt (a.follow o) = true := by simp [isExempt_follow, hcovers]
  rw [follow_eq_self followed] at hexempt
  simp only [Rule.Violates, hl, hexempt] at hs
  exact absurd hs.1 (by decide)

end Advice

/-! ### Runs -/

section
variable {α : Type} {le : α → α → Bool}

theorem filter_mergeSort (trans : ∀ a b c, le a b = true → le b c = true → le a c = true)
    (total : ∀ a b, (le a b || le b a) = true) (keep : α → Bool) (l : List α) :
    (l.mergeSort le).filter keep = (l.filter keep).mergeSort le := by
  have hsorted := (List.pairwise_mergeSort trans total l).filter keep
  refine eq_of_sorted_of_ties total hsorted (List.pairwise_mergeSort trans total _) fun a => ?_
  rw [filter_tied_mergeSort trans total, List.filter_comm, filter_tied_mergeSort trans total,
    List.filter_comm]

end

/-- Under two options of which the second takes away a category, a site is reported under the second
just when it is reported under the first and is not of the category. -/
theorem Rule.finding?_eq_filter {o₁ o₂ : Options} {k : Category} {c : FileContext} {s : Site}
    {v₁ v₂ : Verdict}
    (hviolates : noMutation.Violates o₂ s ↔ noMutation.Violates o₁ s ∧ s.category ≠ k)
    (h₁ : noMutation.check o₁ c s = .ok v₁) (h₂ : noMutation.check o₂ c s = .ok v₂) :
    v₂.finding? = v₁.finding?.filter (·.category ≠ k) := by
  rcases settles_of_check h₁ with ⟨hv₁, f₁, rfl, hd₁⟩ | ⟨hn₁, hf₁⟩
  · rcases settles_of_check h₂ with ⟨hv₂, f₂, rfl, -⟩ | ⟨hn₂, hf₂⟩
    · have hsame := (findingAt_of_check h₁).symm.trans (findingAt_of_check h₂)
      have hk : f₁.category ≠ k := hd₁.category ▸ (hviolates.mp hv₂).2
      simp [Verdict.finding?, Option.filter, ← Except.ok.inj hsame, hk]
    · have hk : f₁.category = k := by
        by_contra hne
        exact hn₂ (hviolates.mpr ⟨hv₁, hd₁.category ▸ hne⟩)
      rw [hf₂]
      simp [Verdict.finding?, Option.filter, hk]
  · rcases settles_of_check h₂ with ⟨hv₂, -⟩ | ⟨-, hf₂⟩
    · exact absurd (hviolates.mp hv₂).1 hn₁
    · simp [hf₁, hf₂]

theorem Rule.message_of_findingAt {r : Rule} {c : FileContext} {s : Site} {f : Finding}
    (h : r.findingAt c s = .ok f) : ∃ named, f.message = f.category.template.fill named := by
  unfold findingAt at h
  split at h
  · cases ht : c.text s.left? with
    | error fault => simp [ht, bind, Except.bind] at h
    | ok assignee =>
      simp only [ht, bind, Except.bind, pure, Except.pure, Except.ok.injEq] at h
      subst h
      exact ⟨_, rfl⟩
  · obtain rfl := Except.ok.inj h
    exact ⟨_, rfl⟩
  · obtain rfl := Except.ok.inj h
    exact ⟨_, rfl⟩

namespace Linter

variable {o₁ o₂ : Options} {k : Category} {c : FileContext} {program : Node}

/-- What holds of single sites holds of all findings of a program. -/
theorem findingsOf_eq_filter
    (hviolates : ∀ s, Rule.noMutation.Violates o₂ s ↔
      Rule.noMutation.Violates o₁ s ∧ s.category ≠ k)
    (h₁ : Checks (.shared o₁) c program .noMutation)
    (h₂ : Checks (.shared o₂) c program .noMutation) :
    findingsOf c program (.noMutation, o₂) =
      (findingsOf c program (.noMutation, o₁)).filter (·.category ≠ k) := by
  rw [findingsOf, findingsOf, List.filter_filterMap]
  refine List.filterMap_congr fun s hs => ?_
  obtain ⟨v₁, hv₁⟩ := h₁ s hs
  obtain ⟨v₂, hv₂⟩ := h₂ s hs
  simp only [OptionSource.get] at hv₁ hv₂
  simpa [hv₁, hv₂, Except.toOption] using Rule.finding?_eq_filter (hviolates s) hv₁ hv₂

def mutations (o : Options) (source : Source) (language : Text) (tree : SyntaxTree)
    (filePath : Option Text) : Option (List Finding) :=
  lintWith (.shared o) ["no-mutation"] source language tree filePath

section
variable {source : Source} {language : Text} {tree : SyntaxTree} {filePath : Option Text}
  {o : Options} {found found₁ found₂ : List Finding}

theorem mutations_eq_some_iff : mutations o source language tree filePath = some found ↔
    (∃ known, Language.ofName? language = some known) ∧
      ∃ program, tree.program source = .ok program ∧
        Checks (.shared o) ⟨source, filePath⟩ program .noMutation ∧
        found = (findingsOf ⟨source, filePath⟩ program (.noMutation, o)).mergeSort Finding.le := by
  have hname : Rule.ofName? "no-mutation" = some .noMutation := by decide
  simp [mutations, lintWith_eq_some_iff, List.filterMap_cons_some hname, hname, reports,
    OptionSource.get]

/-- Under an option that takes away a category, a run that returns has lost the findings of that
category and nothing else. -/
theorem mutations_eq_filter (hviolates : ∀ s, Rule.noMutation.Violates o₂ s ↔
      Rule.noMutation.Violates o₁ s ∧ s.category ≠ k)
    (h₁ : mutations o₁ source language tree filePath = some found₁)
    (h₂ : mutations o₂ source language tree filePath = some found₂) :
    found₂ = found₁.filter (·.category ≠ k) := by
  obtain ⟨-, program, hp, hchecks₁, rfl⟩ := mutations_eq_some_iff.mp h₁
  obtain ⟨-, program', hp', hchecks₂, rfl⟩ := mutations_eq_some_iff.mp h₂
  obtain rfl : program = program' := Except.ok.inj (hp.symm.trans hp')
  rw [filter_mergeSort Finding.le_trans Finding.le_total,
    findingsOf_eq_filter hviolates hchecks₁ hchecks₂]

theorem violates_of_mem_mutations (h : mutations o source language tree filePath = some found)
    {f : Finding} (hf : f ∈ found) : (∃ s, Rule.noMutation.Violates o s ∧ f.category = s.category) ∧
      ∃ named, f.message = f.category.template.fill named := by
  obtain ⟨-, program, -, -, rfl⟩ := mutations_eq_some_iff.mp h
  rw [List.mem_mergeSort, findingsOf] at hf
  obtain ⟨s, -, hf⟩ := List.mem_filterMap.mp hf
  obtain ⟨v, hv, hf⟩ := Option.bind_eq_some_iff.mp hf
  have hcheck := eq_ok_of_toOption hv
  rcases Rule.settles_of_check hcheck with ⟨hviolates, g, rfl, hd⟩ | ⟨-, hnone⟩
  · obtain rfl := Option.some.inj hf
    exact ⟨⟨s, hviolates, hd.category⟩, Rule.message_of_findingAt (Rule.findingAt_of_check hcheck)⟩
  · rw [hnone] at hf
    cases hf

/-- Advice is exact. Turning `commonjs` on takes away the findings that suggest it and leaves the
others in their order; so does turning `prototypes` on where `commonjs` is on. A finding suggests an
option by its category, and then the option is off and turning it on removes the finding. -/
theorem mutations_advice_exact (o : Options) (source : Source) (language : Text)
    (tree : SyntaxTree) (filePath : Option Text) :
    (∀ off on,
      mutations { o with commonjs := false } source language tree filePath = some off →
      mutations { o with commonjs := true } source language tree filePath = some on →
      on = off.filter (·.category ≠ .commonJs)) ∧
    (∀ off on,
      mutations { o with commonjs := true, prototypes := false } source language tree filePath =
        some off →
      mutations { o with commonjs := true, prototypes := true } source language tree filePath =
        some on →
      on = off.filter (·.category ≠ .prototypes)) ∧
    ∀ found, mutations o source language tree filePath = some found → ∀ f ∈ found, ∀ a : Advice,
      (f.Suggests a ↔ f.category = a.category) ∧
      (f.Suggests a → a.isFollowed o = false ∧
        ∀ found', mutations (a.follow o) source language tree filePath = some found' →
          f ∉ found') := by
  refine ⟨fun off on hoff hon => ?_, fun off on hoff hon => ?_, fun found hfound f hf a => ?_⟩
  · refine mutations_eq_filter (fun s => ?_) hoff hon
    exact Advice.violates_follow_iff (a := .commonjs) (o := { o with commonjs := false }) (by simp)
  · refine mutations_eq_filter (fun s => ?_) hoff hon
    exact Advice.violates_follow_iff (a := .prototypes)
      (o := { o with commonjs := true, prototypes := false }) (by simp)
  · obtain ⟨⟨s, hs, hcategory⟩, named, hmessage⟩ := violates_of_mem_mutations hfound hf
    have hsuggests : f.Suggests a ↔ f.category = a.category := by
      rw [Finding.Suggests, hmessage, sentence_suffix_fill_iff]
    refine ⟨hsuggests, fun h => ⟨Bool.eq_false_iff.mpr fun hon => ?_, fun found' hfound' hf' => ?_⟩⟩
    · exact Advice.category_ne_of_isFollowed hon hs (hcategory ▸ hsuggests.mp h)
    · obtain ⟨⟨s', hs', hcategory'⟩, -⟩ := violates_of_mem_mutations hfound' hf'
      refine Advice.category_ne_of_isFollowed ?_ hs' (hcategory' ▸ hsuggests.mp h)
      cases a <;> rfl

end

end Linter

/-- The tree of `class A {} A.prototype.b = exports.c = d`. -/
def bothAdvised : SyntaxTree :=
  .mk "program" true none ⟨0, 40, 0, 0⟩
    [.mk "class_declaration" true none ⟨0, 10, 0, 0⟩
      [.mk "class" false none ⟨0, 5, 0, 0⟩ [],
        .mk "identifier" true (some "name") ⟨6, 7, 0, 6⟩ [],
        .mk "class_body" true (some "body") ⟨8, 10, 0, 8⟩ []],
      .mk "expression_statement" true none ⟨11, 40, 0, 11⟩
        [.mk "assignment_expression" true none ⟨11, 40, 0, 11⟩
          [.mk "member_expression" true (some "left") ⟨11, 24, 0, 11⟩
            [.mk "member_expression" true (some "object") ⟨11, 22, 0, 11⟩
              [.mk "identifier" true (some "object") ⟨11, 12, 0, 11⟩ [],
                .mk "property_identifier" true (some "property") ⟨13, 22, 0, 13⟩ []],
              .mk "property_identifier" true (some "property") ⟨23, 24, 0, 23⟩ []],
            .mk "assignment_expression" true (some "right") ⟨27, 40, 0, 27⟩
              [.mk "member_expression" true (some "left") ⟨27, 36, 0, 27⟩
                [.mk "identifier" true (some "object") ⟨27, 34, 0, 27⟩ [],
                  .mk "property_identifier" true (some "property") ⟨35, 36, 0, 35⟩ []],
                .mk "identifier" true (some "right") ⟨39, 40, 0, 39⟩ []]]]]

def bothAdvisedText : Source := .ofText "class A {} A.prototype.b = exports.c = d"

def bothAdvisedFindings (o : Options) : Option (List Finding) :=
  Linter.mutations o bothAdvisedText "javascript" bothAdvised none

/-- Each option removes the finding that suggests it. -/
theorem bothAdvised_advice_exact : ∃ neither exports both,
    bothAdvisedFindings {} = some neither ∧
    bothAdvisedFindings { commonjs := true } = some exports ∧
    bothAdvisedFindings { commonjs := true, prototypes := true } = some both ∧
    (neither.map (·.category)).Perm [.prototypes, .commonJs] ∧
    exports = neither.filter (·.category ≠ .commonJs) ∧
    both = exports.filter (·.category ≠ .prototypes) ∧
    ∃ f ∈ neither, f.Suggests .prototypes ∧ ∃ removed,
      bothAdvisedFindings { prototypes := true } = some removed ∧ f ∉ removed := by
  have hruns : ∀ o ∈ [({} : Options), { commonjs := true }, { prototypes := true },
      { commonjs := true, prototypes := true }], (bothAdvisedFindings o).isSome = true := by
    decide +kernel
  have hfound : (bothAdvised.program bothAdvisedText).toOption.map (fun program =>
      (Linter.findingsOf ⟨bothAdvisedText, none⟩ program (.noMutation, {})).map (·.category)) =
        some [.prototypes, .commonJs] := by decide +kernel
  obtain ⟨neither, hneither⟩ := Option.isSome_iff_exists.mp (hruns {} (by simp))
  obtain ⟨exports, hexports⟩ := Option.isSome_iff_exists.mp (hruns { commonjs := true } (by simp))
  obtain ⟨removed, hremoved⟩ := Option.isSome_iff_exists.mp (hruns { prototypes := true } (by simp))
  obtain ⟨both, hboth⟩ := Option.isSome_iff_exists.mp
    (hruns { commonjs := true, prototypes := true } (by simp))
  have hcategories : (neither.map (·.category)).Perm [.prototypes, .commonJs] := by
    obtain ⟨program, hp, hfound⟩ := Option.map_eq_some_iff.mp hfound
    obtain ⟨-, program', hp', -, rfl⟩ := Linter.mutations_eq_some_iff.mp hneither
    obtain rfl := Except.ok.inj ((eq_ok_of_toOption hp).symm.trans hp')
    exact hfound ▸ (List.mergeSort_perm _ _).map _
  obtain ⟨hcommonjs, hprototypes, hadvice⟩ :=
    Linter.mutations_advice_exact {} bothAdvisedText "javascript" bothAdvised none
  have hmem : Category.prototypes ∈ neither.map (·.category) := hcategories.mem_iff.mpr (by simp)
  obtain ⟨f, hf, hcategory⟩ := List.mem_map.mp hmem
  obtain ⟨hiff, hexact⟩ := hadvice neither hneither f hf .prototypes
  have hsuggests : f.Suggests .prototypes := hiff.mpr hcategory
  exact ⟨neither, exports, both, hneither, hexports, hboth, hcategories,
    hcommonjs neither exports hneither hexports, hprototypes exports both hexports hboth,
    f, hf, hsuggests, removed, hremoved, (hexact hsuggests).2 removed hremoved⟩

end MutationLint
