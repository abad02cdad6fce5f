import MutationLint.Proofs.Linter.Outcome

/-! Rules do not see one another. All of them share one walk and one sort, yet a run with several
rules gives the findings of the runs with one rule each, sorted together, and the order in which the
rules are named does not matter. -/

namespace MutationLint

/-! ### Stable sorting -/

section
variable {α : Type} {le : α → α → Bool}

def tied (le : α → α → Bool) (a b : α) : Bool := le a b && le b a

theorem tied_self (total : ∀ a b, (le a b || le b a) = true) (a : α) : tied le a a = true := by
  have h := total a a
  simp only [Bool.or_self] at h
  simp [tied, h]

theorem filter_tied_mergeSort (trans : ∀ a b c, le a b = true → le b c = true → le a c = true)
    (total : ∀ a b, (le a b || le b a) = true) (l : List α) (a : α) :
    (l.mergeSort le).filter (tied le a) = l.filter (tied le a) := by
  have hsorted : (l.filter (tied le a)).Pairwise fun x y => le x y = true := by
    refine List.pairwise_of_forall_mem_list fun x hx y hy => ?_
    simp only [List.mem_filter, tied, Bool.and_eq_true] at hx hy
    exact trans x a y hx.2.2 hy.2.1
  have hsub := (List.sublist_mergeSort trans total hsorted List.filter_sublist).filter (tied le a)
  rw [List.filter_filter] at hsub
  simp only [Bool.and_self] at hsub
  have hlength := ((List.mergeSort_perm l le).filter (tied le a)).length_eq
  exact (hsub.eq_of_length hlength.symm).symm

/-- A sorted list is made up of its classes of ties in one way only. -/
theorem eq_of_sorted_of_ties (total : ∀ a b, (le a b || le b a) = true) {l₁ l₂ : List α}
    (sorted₁ : l₁.Pairwise fun x y => le x y = true)
    (sorted₂ : l₂.Pairwise fun x y => le x y = true)
    (ties : ∀ a, l₁.filter (tied le a) = l₂.filter (tied le a)) : l₁ = l₂ := by
  have mem_of_ties {l l' : List α} (h : ∀ a, l.filter (tied le a) = l'.filter (tied le a)) {a : α}
      (ha : a ∈ l) : a ∈ l' := by
    have hmem : a ∈ l.filter (tied le a) := List.mem_filter.mpr ⟨ha, tied_self total a⟩
    rw [h a] at hmem
    exact List.mem_of_mem_filter hmem
  have least {x y : α} {l : List α} (hl : ∀ z ∈ l, le x z = true) (hy : y ∈ x :: l) :
      le x y = true := by
    rcases List.mem_cons.mp hy with rfl | hy
    · simpa using total y y
    · exact hl y hy
  induction l₁ generalizing l₂ with
  | nil =>
    refine (List.eq_nil_iff_forall_not_mem.mpr fun a ha => ?_).symm
    exact List.not_mem_nil (mem_of_ties (fun b => (ties b).symm) ha)
  | cons a rest₁ ih =>
    cases l₂ with
    | nil => exact absurd (mem_of_ties ties List.mem_cons_self) List.not_mem_nil
    | cons b rest₂ =>
      obtain ⟨hfirst₁, hrest₁⟩ := List.pairwise_cons.mp sorted₁
      obtain ⟨hfirst₂, hrest₂⟩ := List.pairwise_cons.mp sorted₂
      -- both heads are least, so they are tied, and the first of a class is in front in both lists
      have hab : tied le a b = true := by
        have hb : b ∈ a :: rest₁ := mem_of_ties (fun c => (ties c).symm) List.mem_cons_self
        have ha : a ∈ b :: rest₂ := mem_of_ties ties List.mem_cons_self
        simp [tied, least hfirst₁ hb, least hfirst₂ ha]
      have hheads := ties a
      rw [List.filter_cons_of_pos (tied_self total a), List.filter_cons_of_pos hab] at hheads
      obtain rfl : a = b := (List.cons.inj hheads).1
      refine congrArg (a :: ·) (ih hrest₁ hrest₂ fun c => ?_)
      have hc := ties c
      cases hca : tied le c a with
      | true =>
        rw [List.filter_cons_of_pos hca, List.filter_cons_of_pos hca] at hc
        exact (List.cons.inj hc).2
      | false =>
        rwa [List.filter_cons_of_neg (by simp [hca]), List.filter_cons_of_neg (by simp [hca])] at hc

/-- A stable sort depends on the classes of ties alone. -/
theorem mergeSort_eq_of_ties (trans : ∀ a b c, le a b = true → le b c = true → le a c = true)
    (total : ∀ a b, (le a b || le b a) = true) {l₁ l₂ : List α}
    (ties : ∀ a, l₁.filter (tied le a) = l₂.filter (tied le a)) :
    l₁.mergeSort le = l₂.mergeSort le := by
  refine eq_of_sorted_of_ties total (List.pairwise_mergeSort trans total l₁)
    (List.pairwise_mergeSort trans total l₂) fun a => ?_
  rw [filter_tied_mergeSort trans total, filter_tied_mergeSort trans total, ties a]

end

/-! ### Findings of several rules -/

namespace Finding

theorem rule_eq_of_tied {a b : Finding} (h : tied le a b = true) : a.rule = b.rule := by
  rw [tied, Bool.and_eq_true, le_iff, le_iff] at h
  have hkey := le_antisymm h.1 h.2
  exact Rule.name_injective (Prod.ext_iff.mp (Prod.ext_iff.mp hkey).2).2

end Finding

section
variable {reports : Rule → List Finding}

theorem flatMap_ite_eq {α β : Type} [DecidableEq α] (l : List α) (a : α) (g : List β) :
    (l.flatMap fun b => if b = a then g else []) = (List.replicate (l.count a) g).flatten := by
  induction l with
  | nil => rfl
  | cons b rest ih =>
    by_cases h : b = a
    · simp [h, ih, List.replicate_succ]
    · simp [h, ih]

/-- The findings tied with one come from its rule, once for each time the rule is listed. -/
theorem filter_tied_flatMap (own : ∀ r, ∀ f ∈ reports r, f.rule = r) (rules : List Rule)
    (a : Finding) : (rules.flatMap reports).filter (tied Finding.le a) =
      (List.replicate (rules.count a.rule)
        ((reports a.rule).filter (tied Finding.le a))).flatten := by
  rw [List.filter_flatMap, ← flatMap_ite_eq]
  refine List.flatMap_congr fun r _ => ?_
  by_cases h : r = a.rule
  · simp [h]
  · rw [if_neg h, List.filter_eq_nil_iff]
    intro f hf htied
    exact h ((own r f hf).symm.trans (Finding.rule_eq_of_tied htied).symm)

/-- Sorted together, the findings do not show the order of the rules. -/
theorem mergeSort_flatMap_of_perm (own : ∀ r, ∀ f ∈ reports r, f.rule = r)
    {rules rules' : List Rule} (h : rules.Perm rules') :
    (rules.flatMap reports).mergeSort Finding.le =
      (rules'.flatMap reports).mergeSort Finding.le := by
  refine mergeSort_eq_of_ties Finding.le_trans Finding.le_total fun a => ?_
  rw [filter_tied_flatMap own, filter_tied_flatMap own, h.count_eq]

/-- Nor do they show whether they were sorted rule by rule before. -/
theorem mergeSort_flatMap_mergeSort (rules : List Rule) :
    (rules.flatMap fun r => (reports r).mergeSort Finding.le).mergeSort Finding.le =
      (rules.flatMap reports).mergeSort Finding.le := by
  refine mergeSort_eq_of_ties Finding.le_trans Finding.le_total fun a => ?_
  rw [List.filter_flatMap, List.filter_flatMap]
  exact List.flatMap_congr fun r _ => filter_tied_mergeSort Finding.le_trans Finding.le_total _ _

end

namespace Linter

/-! ### Runs by name -/

/-- What linting with the named rules returns; nothing when it fails. -/
def lintWith (options : OptionSource) (names : List Text) (source : Source) (language : Text)
    (tree : SyntaxTree) (filePath : Option Text) : Option (List Finding) :=
  (create options (some names)).toOption.bind fun l =>
    (l.lintSource source language tree filePath).result.toOption

section
variable {options : OptionSource} {names : List Text} {source : Source} {language : Text}
  {tree : SyntaxTree} {filePath : Option Text} {findings : List Finding}

def Readable (source : Source) (language : Text) (tree : SyntaxTree) : Prop :=
  (∃ known, Language.ofName? language = some known) ∧ ∃ program, tree.program source = .ok program

def Checks (options : OptionSource) (c : FileContext) (program : Node) (r : Rule) : Prop :=
  ∀ s ∈ Site.walk program, ∃ v, r.check (options.get r) c s = .ok v

def reports (options : OptionSource) (c : FileContext) (program : Node) (r : Rule) : List Finding :=
  findingsOf c program (r, options.get r)

theorem rule_of_mem_reports {c : FileContext} {program : Node} {r : Rule} {f : Finding}
    (h : f ∈ reports options c program r) : f.rule = r := by
  rw [reports, findingsOf_eq] at h
  obtain ⟨x, hx, rfl⟩ := List.mem_map.mp h
  have hd := describes_of_mem_allLocated (l := ⟨[(r, options.get r)]⟩)
    (List.mem_flatMap.mpr ⟨_, List.mem_singleton_self _, hx⟩)
  exact hd.rule.trans (mem_located.mp hx).1

theorem lintWith_eq_some_iff_create :
    lintWith options names source language tree filePath = some findings ↔
      ∃ l, create options (some names) = .ok l ∧
        (l.lintSource source language tree filePath).result = .ok findings := by
  rw [lintWith, Option.bind_eq_some_iff]
  constructor
  · rintro ⟨l, hl, hrun⟩
    exact ⟨l, eq_ok_of_toOption hl, eq_ok_of_toOption hrun⟩
  · rintro ⟨l, hl, hrun⟩
    exact ⟨l, by rw [hl]; rfl, by rw [hrun]; rfl⟩

/-- A run with the named rules returns when the names are known, the tree can be read and every
named rule can be checked; it returns what the rules find, sorted together. -/
theorem lintWith_eq_some_iff :
    lintWith options names source language tree filePath = some findings ↔
      (∀ n ∈ names, ∃ r, Rule.ofName? n = some r) ∧
      (∃ known, Language.ofName? language = some known) ∧
      ∃ program, tree.program source = .ok program ∧
        (∀ r ∈ names.filterMap Rule.ofName?, Checks options ⟨source, filePath⟩ program r) ∧
        findings = ((names.filterMap Rule.ofName?).flatMap
          (reports options ⟨source, filePath⟩ program)).mergeSort Finding.le := by
  have hrun (program : Node) (rules : List Rule) :
      (lintProgram ⟨rules.map fun r => (r, options.get r)⟩ ⟨source, filePath⟩ program).result =
          .ok findings ↔
        (∀ r ∈ rules, Checks options ⟨source, filePath⟩ program r) ∧ findings =
          (rules.flatMap (reports options ⟨source, filePath⟩ program)).mergeSort Finding.le := by
    rw [lintProgram_eq_ok_iff, List.flatMap_map, Returns,
      List.forall_mem_map]
    rfl
  rw [lintWith_eq_some_iff_create]
  simp only [create_eq_ok_iff, lintSource_eq_ok_iff, Option.getD_some]
  constructor
  · rintro ⟨l, ⟨hknown, rfl⟩, hlanguage, program, hp, h⟩
    exact ⟨hknown, hlanguage, program, hp, (hrun program _).mp h⟩
  · rintro ⟨hknown, hlanguage, program, hp, h⟩
    exact ⟨_, ⟨hknown, rfl⟩, hlanguage, program, hp, (hrun program _).mpr h⟩

theorem of_lintWith_singleton {n : Text} {r : Rule} (hr : Rule.ofName? n = some r) {program : Node}
    (hp : tree.program source = .ok program)
    (h : lintWith options [n] source language tree filePath = some findings) :
    Checks options ⟨source, filePath⟩ program r ∧
      findings = (reports options ⟨source, filePath⟩ program r).mergeSort Finding.le := by
  obtain ⟨-, -, program', hp', hchecks, rfl⟩ := lintWith_eq_some_iff.mp h
  obtain rfl : program = program' := Except.ok.inj (hp.symm.trans hp')
  simp only [List.filterMap_cons_some hr, List.filterMap_nil] at hchecks ⊢
  exact ⟨hchecks r (List.mem_singleton_self r), by simp⟩

/-- When the run with each named rule alone returns, a run with all of them, in whatever order they
are named, returns the findings of the single runs, sorted together. Where no rule is named at all,
the tree must be readable for the run to return. -/
theorem lintWith_eq_sorted_single (options : OptionSource) (names : List Text) (source : Source)
    (language : Text) (tree : SyntaxTree) (filePath : Option Text) {single : Text → List Finding}
    (returned : ∀ n ∈ names,
      lintWith options [n] source language tree filePath = some (single n))
    (readable : names = [] → Readable source language tree) :
    lintWith options names source language tree filePath =
        some ((names.flatMap single).mergeSort Finding.le) ∧
      ∀ names', names'.Perm names →
        lintWith options names' source language tree filePath =
          lintWith options names source language tree filePath := by
  have hread : Readable source language tree := by
    cases names with
    | nil => exact readable rfl
    | cons n rest =>
      obtain ⟨-, hlanguage, program, hp, -⟩ :=
        lintWith_eq_some_iff.mp (returned n List.mem_cons_self)
      exact ⟨hlanguage, program, hp⟩
  obtain ⟨hlanguage, program, hp⟩ := hread
  have hknown : ∀ n ∈ names, ∃ r, Rule.ofName? n = some r := fun n hn =>
    (lintWith_eq_some_iff.mp (returned n hn)).1 n (List.mem_singleton_self n)
  have hsingle : ∀ n ∈ names, ∀ r, Rule.ofName? n = some r →
      Checks options ⟨source, filePath⟩ program r ∧
        single n = (reports options ⟨source, filePath⟩ program r).mergeSort Finding.le :=
    fun n hn r hr => of_lintWith_singleton hr hp (returned n hn)
  have hchecks : ∀ r ∈ names.filterMap Rule.ofName?,
      Checks options ⟨source, filePath⟩ program r := by
    intro r hr
    obtain ⟨n, hn, hr⟩ := List.mem_filterMap.mp hr
    exact (hsingle n hn r hr).1
  have hjoined : names.flatMap single = (names.filterMap Rule.ofName?).flatMap fun r =>
      (reports options ⟨source, filePath⟩ program r).mergeSort Finding.le := by
    rw [List.filterMap_eq_flatMap_toList, List.flatMap_assoc]
    refine List.flatMap_congr fun n hn => ?_
    obtain ⟨r, hr⟩ := hknown n hn
    simp [hr, (hsingle n hn r hr).2]
  have hrun : ∀ names', names'.Perm names →
      lintWith options names' source language tree filePath =
        some ((names.flatMap single).mergeSort Finding.le) := by
    intro names' hperm
    have hrules := hperm.filterMap Rule.ofName?
    refine lintWith_eq_some_iff.mpr ⟨fun n hn => hknown n (hperm.mem_iff.mp hn), hlanguage, program,
      hp, fun r hr => hchecks r (hrules.mem_iff.mp hr), ?_⟩
    rw [hjoined, mergeSort_flatMap_mergeSort]
    exact mergeSort_flatMap_of_perm (fun r f hf => rule_of_mem_reports hf) hrules.symm
  exact ⟨hrun names (List.Perm.refl _), fun names' hperm =>
    (hrun names' hperm).trans (hrun names (List.Perm.refl _)).symm⟩

end

end Linter

def repeatedRules : List Text := ["no-mutation", "no-mutating-functions", "no-mutation"]

def nestedFindings (n : Text) : List Finding :=
  (Linter.lintWith (.shared {}) [n] (.ofText "a.b = c++") "javascript" nestedMutations none).getD []

theorem nestedMutations_sorted_single :
    (∀ n ∈ repeatedRules, Linter.lintWith (.shared {}) [n] (.ofText "a.b = c++") "javascript"
      nestedMutations none = some (nestedFindings n)) ∧
    (repeatedRules.flatMap nestedFindings).map (·.category) =
      [.reassignment, .increment, .reassignment, .increment] ∧
    (Linter.lintWith (.shared {}) repeatedRules (.ofText "a.b = c++") "javascript" nestedMutations
        none = some ((repeatedRules.flatMap nestedFindings).mergeSort Finding.le) ∧
      ∀ names', names'.Perm repeatedRules →
        Linter.lintWith (.shared {}) names' (.ofText "a.b = c++") "javascript"
            nestedMutations none =
          Linter.lintWith (.shared {}) repeatedRules (.ofText "a.b = c++") "javascript"
            nestedMutations none) := by
  have hsome : ∀ n ∈ repeatedRules, (Linter.lintWith (.shared {}) [n] (.ofText "a.b = c++")
      "javascript" nestedMutations none).isSome = true := by
    simp only [repeatedRules, List.forall_mem_cons, List.not_mem_nil]
    refine ⟨?_, ?_, ?_, by simp⟩ <;> cbv
  have hreturned : ∀ n ∈ repeatedRules, Linter.lintWith (.shared {}) [n] (.ofText "a.b = c++")
      "javascript" nestedMutations none = some (nestedFindings n) := by
    intro n hn
    obtain ⟨found, hfound⟩ := Option.isSome_iff_exists.mp (hsome n hn)
    rw [nestedFindings, hfound, Option.getD_some]
  exact ⟨hreturned, by cbv,
    Linter.lintWith_eq_sorted_single _ _ _ _ _ _ hreturned (by simp [repeatedRules])⟩

/-- The tree of a string whose one character is not text. -/
def brokenString : SyntaxTree :=
  .mk "program" true none ⟨0, 3, 0, 0⟩
    [.mk "expression_statement" true none ⟨0, 3, 0, 0⟩ [.mk "string" true none ⟨0, 3, 0, 0⟩ []]]

def brokenSource : Source := ⟨⟨#[0x22, 0xFF, 0x22]⟩⟩

/-- Reading comes before checking, so that a run without rules, in which no rule can fail, fails
all the same on a tree that cannot be read. -/
theorem not_forall_lintWith_eq_sorted_single :
    ¬ ∀ (names : List Text) (single : Text → List Finding),
      (∀ n ∈ names, Linter.lintWith (.shared {}) [n] brokenSource "javascript" brokenString none =
        some (single n)) →
      Linter.lintWith (.shared {}) names brokenSource "javascript" brokenString none =
        some ((names.flatMap single).mergeSort Finding.le) := by
  intro h
  have hnone : (Linter.lintWith (.shared {}) [] brokenSource "javascript" brokenString
      none).isSome = false := by cbv
  have hsome := h [] (fun _ => []) (by simp)
  rw [hsome] at hnone
  cases hnone

end MutationLint
