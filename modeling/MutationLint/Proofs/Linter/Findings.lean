import Mathlib
import MutationLint.Proofs.Linter.SharedWalk
import MutationLint.Proofs.Node.Assembly

/-! The findings of a run stand for the violations in the program, one for each, in the order of
line, column and rule name; violations of one rule at one place stand in document order. -/

namespace MutationLint

open List (Sublist)

/-! ### Pairs in a list -/

theorem pair_sublist_or {α : Type} {l : List α} {a b : α} (ha : a ∈ l) (hb : b ∈ l)
    (hne : a ≠ b) : Sublist [a, b] l ∨ Sublist [b, a] l := by
  induction l with
  | nil => cases ha
  | cons x rest ih =>
    rcases List.mem_cons.mp ha with rfl | ha'
    · have hb' := (List.mem_cons.mp hb).resolve_left (Ne.symm hne)
      exact Or.inl ((List.singleton_sublist.mpr hb').cons_cons a)
    · rcases List.mem_cons.mp hb with rfl | hb'
      · exact Or.inr ((List.singleton_sublist.mpr ha').cons_cons b)
      · exact (ih ha' hb').imp (·.cons x) (·.cons x)

theorem not_pair_sublist {α : Type} {l : List α} {a b : α} (hl : l.Nodup)
    (h : Sublist [a, b] l) : ¬ Sublist [b, a] l := by
  induction l with
  | nil => cases h
  | cons x rest ih =>
    obtain ⟨hx, hrest⟩ := List.nodup_cons.mp hl
    intro h'
    cases h with
    | cons _ h =>
      cases h' with
      | cons _ h' => exact ih hrest h h'
      | cons_cons _ h' => exact hx (h.subset (by simp))
    | cons_cons _ h =>
      cases h' with
      | cons _ h' => exact hx (h'.subset (by simp))
      | cons_cons _ h' => exact hx (List.singleton_sublist.mp h)

/-! ### The order of findings -/

def sortKey (r : Rule) (n : Node) : Int ×ₗ Int ×ₗ String :=
  toLex (n.extent.line, toLex (n.extent.column, r.name))

namespace Finding

def sortKey (f : Finding) : Int ×ₗ Int ×ₗ String := toLex (f.line, toLex (f.column, f.rule.name))

theorem le_iff {a b : Finding} : a.le b = true ↔ a.sortKey ≤ b.sortKey := by
  simp only [le, sortKey, Prod.Lex.toLex_le_toLex, Bool.or_eq_true,
    Bool.and_eq_true, beq_iff_eq, Bool.not_eq_true', decide_eq_false_iff_not, not_lt]
  exact or_congr decide_eq_true_iff (and_congr_right' (or_congr decide_eq_true_iff Iff.rfl))

theorem le_trans (a b c : Finding) (h : a.le b = true) (h' : b.le c = true) : a.le c = true :=
  le_iff.mpr ((le_iff.mp h).trans (le_iff.mp h'))

theorem le_total (a b : Finding) : (a.le b || b.le a) = true := by
  rw [Bool.or_eq_true, le_iff, le_iff]
  exact LinearOrder.le_total _ _

end Finding

theorem Describes.sortKey {filePath : Option Text} {v : Rule × Site} {f : Finding}
    (h : Describes filePath v f) : f.sortKey = MutationLint.sortKey v.1 v.2.node := by
  rw [Finding.sortKey, h.rule, h.line, h.column, MutationLint.sortKey]

theorem Rule.name_injective : Function.Injective Rule.name := by
  intro a b h
  cases a <;> cases b <;> first | rfl | (simp [Rule.name] at h)

def Site.Precedes (program : Node) (s t : Site) : Prop := Sublist [s, t] (Site.walk program)

/-- The order in which violations are listed: by place and rule, and then in document order. -/
def Listed (program : Node) (v w : Rule × Site) : Prop :=
  sortKey v.1 v.2.node < sortKey w.1 w.2.node ∨
    (sortKey v.1 v.2.node = sortKey w.1 w.2.node ∧ v.2.Precedes program w.2)

namespace Linter

section
variable {c : FileContext} {program : Node}

/-- A finding together with the violation it tells of. -/
abbrev Located := (Rule × Site) × Finding

def Located.le (x y : Located) : Bool := x.2.le y.2

theorem Located.le_trans (x y z : Located) (h : x.le y = true) (h' : y.le z = true) :
    x.le z = true :=
  Finding.le_trans x.2 y.2 z.2 h h'

theorem Located.le_total (x y : Located) : (x.le y || y.le x) = true := Finding.le_total x.2 y.2

/-- What one rule reports, each finding with the site it is about, in document order. -/
def located (c : FileContext) (program : Node) (active : Rule × Options) : List Located :=
  (Site.walk program).filterMap fun s =>
    ((active.1.check active.2 c s).toOption.bind Verdict.finding?).map ((active.1, s), ·)

theorem findingsOf_eq (active : Rule × Options) :
    findingsOf c program active = (located c program active).map (·.2) := by
  rw [findingsOf, located, List.map_filterMap]
  congr 1
  funext s
  cases (active.1.check active.2 c s).toOption.bind Verdict.finding? <;> rfl

theorem mem_located {active : Rule × Options} {x : Located} :
    x ∈ located c program active ↔ x.1.1 = active.1 ∧ x.1.2 ∈ Site.walk program ∧
      active.1.check active.2 c x.1.2 = .ok (.reported x.2) := by
  obtain ⟨⟨r, s⟩, f⟩ := x
  simp only [located, List.mem_filterMap, Option.map_eq_some_iff, Option.bind_eq_some_iff]
  constructor
  · rintro ⟨t, ht, g, ⟨v, hv, hg⟩, he⟩
    cases he
    cases v with
    | reported f =>
      cases hg
      refine ⟨rfl, ht, ?_⟩
      cases hc : active.1.check active.2 c s with
      | error e => rw [hc] at hv; cases hv
      | ok v => rw [hc] at hv; cases hv; rfl
    | _ => cases hg
  · rintro ⟨rfl, ht, hc⟩
    exact ⟨s, ht, f, ⟨.reported f, by rw [hc]; rfl, rfl⟩, rfl⟩

def allLocated (l : Linter) (c : FileContext) (program : Node) : List Located :=
  l.active.flatMap (located c program)

theorem located_nodup (active : Rule × Options) :
    ((located c program active).map (·.1)).Nodup := by
  rw [located, List.map_filterMap]
  refine List.Nodup.filterMap ?_ (Site.walk_nodup program)
  intro s t v hs ht
  obtain ⟨x, hx, rfl⟩ := Option.map_eq_some_iff.mp hs
  obtain ⟨y, hy, he⟩ := Option.map_eq_some_iff.mp ht
  obtain ⟨f, -, rfl⟩ := Option.map_eq_some_iff.mp hx
  obtain ⟨g, -, rfl⟩ := Option.map_eq_some_iff.mp hy
  exact (Prod.mk.inj he).2.symm

/-- Each violation is found once, when no rule is active twice. -/
theorem allLocated_nodup {l : Linter} (distinct : (l.active.map (·.1)).Nodup) :
    ((allLocated l c program).map (·.1)).Nodup := by
  rw [allLocated, List.map_flatMap, List.nodup_flatMap]
  refine ⟨fun active _ => located_nodup active, ?_⟩
  refine (List.pairwise_map.mp distinct).imp ?_
  intro a b hab
  refine List.disjoint_left.mpr fun v hva hvb => hab ?_
  obtain ⟨x, hx, rfl⟩ := List.mem_map.mp hva
  obtain ⟨y, hy, he⟩ := List.mem_map.mp hvb
  rw [← (mem_located.mp hx).1, ← (mem_located.mp hy).1, he]

theorem mem_map_allLocated {l : Linter} (h : l.Returns c program) {r : Rule} {s : Site} :
    (r, s) ∈ (allLocated l c program).map (·.1) ↔
      ∃ o, (r, o) ∈ l.active ∧ s ∈ Site.walk program ∧ r.Violates o s := by
  simp only [allLocated, List.mem_map, List.mem_flatMap]
  constructor
  · rintro ⟨x, ⟨⟨r', o⟩, hact, hx⟩, he⟩
    obtain ⟨hr, hs, hc⟩ := mem_located.mp hx
    rw [he] at hr hs hc
    obtain rfl : r = r' := hr
    rcases Rule.settles_of_check hc with ⟨hv, -⟩ | ⟨-, hf⟩
    · exact ⟨o, hact, hs, hv⟩
    · cases hf
  · rintro ⟨o, hact, hs, hv⟩
    obtain ⟨v, hc⟩ := h (r, o) hact s hs
    rcases Rule.settles_of_check hc with ⟨-, f, rfl, -⟩ | ⟨hn, -⟩
    · exact ⟨((r, s), f), ⟨(r, o), hact, mem_located.mpr ⟨rfl, hs, hc⟩⟩, rfl⟩
    · exact absurd hv hn

theorem describes_of_mem_allLocated {l : Linter} {x : Located}
    (hx : x ∈ allLocated l c program) : Describes c.filePath x.1 x.2 := by
  obtain ⟨active, hact, hx⟩ := List.mem_flatMap.mp hx
  obtain ⟨hr, hs, hc⟩ := mem_located.mp hx
  rcases Rule.settles_of_check hc with ⟨-, f, hf, hd⟩ | ⟨-, hf⟩
  · cases hf
    rwa [← hr] at hd
  · cases hf

theorem sortKey_of_mem_allLocated {l : Linter} {x : Located} (hx : x ∈ allLocated l c program) :
    x.2.sortKey = sortKey x.1.1 x.1.2.node := (describes_of_mem_allLocated hx).sortKey

/-- What is located by one rule stands, before sorting, in document order. -/
theorem pair_sublist_allLocated {l : Linter} (distinct : (l.active.map (·.1)).Nodup)
    {x y : Located} (hx : x ∈ allLocated l c program) (hy : y ∈ allLocated l c program)
    (hr : x.1.1 = y.1.1) (hp : x.1.2.Precedes program y.1.2) :
    Sublist [x, y] (allLocated l c program) := by
  obtain ⟨active, hact, hx⟩ := List.mem_flatMap.mp hx
  obtain ⟨active', hact', hy⟩ := List.mem_flatMap.mp hy
  obtain ⟨hrx, -, hcx⟩ := mem_located.mp hx
  obtain ⟨hry, -, hcy⟩ := mem_located.mp hy
  obtain rfl : active = active' :=
    List.inj_on_of_nodup_map distinct hact hact' (hrx.symm.trans (hr.trans hry))
  have hxy : Sublist [x, y] (located c program active) := by
    obtain ⟨⟨r, s⟩, f⟩ := x
    obtain ⟨⟨r', t⟩, g⟩ := y
    obtain ⟨q, o⟩ := active
    obtain rfl : r = q := hrx
    obtain rfl : r' = r := hry
    have h := hp.filterMap fun s =>
      ((r'.check o c s).toOption.bind Verdict.finding?).map ((r', s), ·)
    simp only [List.filterMap_cons, List.filterMap_nil, hcx, hcy] at h
    exact h
  exact hxy.trans (List.sublist_flatten_of_mem (List.mem_map_of_mem hact))

def sorted (l : Linter) (c : FileContext) (program : Node) : List Located :=
  (allLocated l c program).mergeSort Located.le

theorem sorted_pairwise (l : Linter) : (sorted l c program).Pairwise fun x y => x.le y = true :=
  List.pairwise_mergeSort Located.le_trans Located.le_total _

theorem sorted_perm (l : Linter) : (sorted l c program).Perm (allLocated l c program) :=
  List.mergeSort_perm _ _

theorem map_sorted (l : Linter) : (sorted l c program).map (·.2) =
    (l.active.flatMap (findingsOf c program)).mergeSort Finding.le := by
  have hall : (allLocated l c program).map (·.2) = l.active.flatMap (findingsOf c program) := by
    simp only [allLocated, List.map_flatMap, ← findingsOf_eq]
  rw [← hall]
  exact List.map_mergeSort fun _ _ _ _ => rfl

theorem pairwise_listed {l : Linter} (distinct : (l.active.map (·.1)).Nodup) :
    ((sorted l c program).map (·.1)).Pairwise (Listed program) := by
  have hnodup : ((sorted l c program).map (·.1)).Nodup :=
    ((sorted_perm l).map _).nodup_iff.mpr (allLocated_nodup distinct)
  rw [List.pairwise_map, List.pairwise_iff_forall_sublist]
  intro x y hxy
  have hx : x ∈ allLocated l c program := (sorted_perm l).mem_iff.mp (hxy.subset (by simp))
  have hy : y ∈ allLocated l c program := (sorted_perm l).mem_iff.mp (hxy.subset (by simp))
  have hle := Finding.le_iff.mp (List.pairwise_iff_forall_sublist.mp (sorted_pairwise l) hxy)
  rw [sortKey_of_mem_allLocated hx, sortKey_of_mem_allLocated hy] at hle
  rcases lt_or_eq_of_le hle with hlt | heq
  · exact Or.inl hlt
  · refine Or.inr ⟨heq, ?_⟩
    have hr : x.1.1 = y.1.1 := Rule.name_injective (Prod.ext_iff.mp (Prod.ext_iff.mp heq).2).2
    have hne : x.1.2 ≠ y.1.2 := by
      intro he
      have hpair : Sublist [x.1, y.1] ((sorted l c program).map (·.1)) := hxy.map _
      have := hpair.nodup hnodup
      simp [Prod.ext_iff, hr, he] at this
    obtain ⟨-, hsx, -⟩ := mem_located.mp (List.mem_flatMap.mp hx).choose_spec.2
    obtain ⟨-, hsy, -⟩ := mem_located.mp (List.mem_flatMap.mp hy).choose_spec.2
    -- in the other order they would stand the other way round before sorting, hence after it
    refine (pair_sublist_or hsx hsy hne).resolve_right fun hyx => ?_
    have hback := pair_sublist_allLocated distinct hy hx hr.symm hyx
    have hle' : y.le x = true := by
      rw [Located.le, Finding.le_iff, sortKey_of_mem_allLocated hx,
        sortKey_of_mem_allLocated hy, heq]
    have hsorted : Sublist [y, x] (sorted l c program) :=
      List.pair_sublist_mergeSort Located.le_trans Located.le_total hle' hback
    exact not_pair_sublist (List.Nodup.of_map _ hnodup) hxy hsorted

end

/-- The findings stand for the violations of a program, one for each. -/
structure Correspond (l : Linter) (program : Node) (filePath : Option Text)
    (violations : List (Rule × Site)) (findings : List Finding) : Prop where
  distinct : violations.Nodup
  /-- The violations are those of the active rules at all sites of the program. -/
  complete : ∀ r s, (r, s) ∈ violations ↔
    ∃ o, (r, o) ∈ l.active ∧ s ∈ Site.walk program ∧ r.Violates o s
  listed : violations.Pairwise (Listed program)
  described : List.Forall₂ (Describes filePath) violations findings
  ordered : findings.Pairwise fun f g => f.sortKey ≤ g.sortKey

theorem correspond_lintProgram {l : Linter} {c : FileContext} {program : Node}
    {findings : List Finding} (distinct : (l.active.map (·.1)).Nodup)
    (returned : (l.lintProgram c program).result = .ok findings) :
    Correspond l program c.filePath ((sorted l c program).map (·.1)) findings := by
  obtain ⟨hreturns, rfl⟩ := lintProgram_eq_ok_iff.mp returned
  refine ⟨?_, ?_, pairwise_listed distinct, ?_, ?_⟩
  · exact ((sorted_perm l).map _).nodup_iff.mpr (allLocated_nodup distinct)
  · intro r s
    rw [((sorted_perm l).map _).mem_iff]
    exact mem_map_allLocated hreturns
  · rw [← map_sorted, List.forall₂_map_left_iff, List.forall₂_map_right_iff, List.forall₂_same]
    exact fun x hx => describes_of_mem_allLocated ((sorted_perm l).mem_iff.mp hx)
  · rw [← map_sorted, List.pairwise_map]
    exact (sorted_pairwise l).imp Finding.le_iff.mp

/-- Linting with rules that are all different, when it returns, gives findings that correspond to
the violations in the program the tree stands for. -/
theorem lintSource_findings_correspond (l : Linter) (source : Source) (language : Text)
    (tree : SyntaxTree) (filePath : Option Text) {findings : List Finding}
    (distinct : (l.active.map (·.1)).Nodup)
    (returned : (l.lintSource source language tree filePath).result = .ok findings) :
    ∃ program, tree.program source = .ok program ∧
      ∃ violations, Correspond l program filePath violations findings := by
  unfold lintSource at returned
  split at returned
  · cases returned
  · split at returned
    · cases returned
    · rename_i program hp
      exact ⟨program, hp, _, correspond_lintProgram distinct returned⟩

end Linter

/-- The tree of `a.b = c++`. -/
def nestedMutations : SyntaxTree :=
  .mk "program" true none ⟨0, 9, 0, 0⟩
    [.mk "expression_statement" true none ⟨0, 9, 0, 0⟩
      [.mk "assignment_expression" true none ⟨0, 9, 0, 0⟩
        [.mk "member_expression" true (some "left") ⟨0, 3, 0, 0⟩
          [.mk "identifier" true (some "object") ⟨0, 1, 0, 0⟩ [],
            .mk "." false none ⟨1, 2, 0, 1⟩ [],
            .mk "property_identifier" true (some "property") ⟨2, 3, 0, 2⟩ []],
          .mk "=" false none ⟨4, 5, 0, 4⟩ [],
          .mk "update_expression" true (some "right") ⟨6, 9, 0, 6⟩
            [.mk "identifier" true (some "argument") ⟨6, 7, 0, 6⟩ [],
              .mk "++" false (some "operator") ⟨7, 9, 0, 7⟩ []]]]]

def standardLinter : Linter := ⟨[(.noMutation, {}), (.noMutatingFunctions, {})]⟩

theorem nestedMutations_findings_correspond : (standardLinter.active.map (·.1)).Nodup ∧
    ∃ findings, (standardLinter.lintSource (.ofText "a.b = c++") "javascript" nestedMutations
        none).result = .ok findings ∧
      findings.map (·.category) = [.reassignment, .increment] ∧
      ∃ program, nestedMutations.program (.ofText "a.b = c++") = .ok program ∧
        ∃ violations, Linter.Correspond standardLinter program none violations findings := by
  have hd : (standardLinter.active.map (·.1)).Nodup := by decide
  have hc : (standardLinter.lintSource (.ofText "a.b = c++") "javascript" nestedMutations
      none).result.toOption.map (·.map (·.category)) = some [.reassignment, .increment] := by cbv
  obtain ⟨findings, hf, hcat⟩ := Option.map_eq_some_iff.mp hc
  have hr := eq_ok_of_toOption hf
  exact ⟨hd, findings, hr, hcat, Linter.lintSource_findings_correspond _ _ _ _ _ hd hr⟩

end MutationLint
